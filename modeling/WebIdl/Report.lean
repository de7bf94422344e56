import WebIdl.Problem.Basic

namespace WebIdl

structure ProblemsReported where
  count : Nat
  positive : 0 < count

namespace ProblemsReported

def ofCount? (count : Nat) : Option ProblemsReported :=
  if positive : 0 < count then some ⟨count, positive⟩ else none

def text (_ : ProblemsReported) : String := "error(s) emitted"

end ProblemsReported

structure Report where
  problems : List Problem
deriving DecidableEq, Repr

namespace Report

def precedes (one other : Problem) : Bool :=
  one.name < other.name || one.name == other.name && one.code.number ≤ other.code.number

/-- Problems of one name and code stay in the order in which they were found. -/
def ofProblems (problems : List Problem) : Report := ⟨problems.mergeSort precedes⟩

def size (report : Report) : Nat := report.problems.length

def isEmpty (report : Report) : Bool := report.problems.isEmpty

def filterCode (report : Report) (code : ProblemCode) : List Problem :=
  report.problems.filter (·.code == code)

def filterName (report : Report) (name : String) : List Problem :=
  report.problems.filter (·.name == name)

def diagnostics (report : Report) : List Diagnostic := report.problems.map (·.diagnostic)

def evidence? (report : Report) : Option ProblemsReported := ProblemsReported.ofCount? report.size

def text (report : Report) : String :=
  s!"{report.size} error(s) in IDL definitions" ++ String.join (report.problems.map line)
where
  line (problem : Problem) : String :=
    match problem.locations? with
    | some locations => s!"\n  {problem.message} ({locations.text})"
    | none => s!"\n  {problem.message}"

end Report

end WebIdl
