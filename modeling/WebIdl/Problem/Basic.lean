import WebIdl.Diagnostic
import WebIdl.Identifier
import WebIdl.Kind

namespace WebIdl

inductive Problem.Cause where
  | kindMismatch (declarations : List (Kind × Locations))
  | conflictingDeclaration (field : String) (first second : Locations)
  | duplicateAttribute (key : String) (first second : Locations)
  | partialOnly (kind : Kind) (locations : Locations)
  | unresolvedReference (referenced position : String) (locations : Locations)
  | invalidReference (referenced position : String) (expected found : Kind)
      (locations : Locations)
  | inheritanceCycle (names : List String) (locations : Locations)
deriving DecidableEq, Repr

structure Problem where
  identifier : Identifier
  /-- The spelling of the identifier, so that a problem can be shown without its interner. -/
  name : String
  cause : Problem.Cause
deriving DecidableEq, Repr

namespace Problem

def Cause.code : Cause → ProblemCode
  | .kindMismatch _ => .kindMismatch
  | .conflictingDeclaration .. => .conflictingDeclaration
  | .duplicateAttribute .. => .duplicateAttribute
  | .partialOnly .. => .partialOnly
  | .unresolvedReference .. => .unresolvedReference
  | .invalidReference .. => .invalidReference
  | .inheritanceCycle .. => .inheritanceCycle

def code (problem : Problem) : ProblemCode := problem.cause.code

/-- Lists each kind once, as in "an interface, a dictionary and a typedef". -/
def kindsText (kinds : List Kind) : String :=
  match ((firstOccurrences kinds).map (·.textWithArticle)).reverse with
  | [] => ""
  | [only] => only
  | last :: others => ", ".intercalate others.reverse ++ " and " ++ last

def message (problem : Problem) : String :=
  let name := problem.name
  match problem.cause with
  | .kindMismatch declarations =>
    s!"`{name}` is declared as " ++ kindsText (declarations.map (·.1))
  | .conflictingDeclaration field .. => s!"conflicting {field} for `{name}`"
  | .duplicateAttribute key .. =>
    s!"extended attribute `{key}` on `{name}` is given conflicting values"
  | .partialOnly kind _ => s!"{kind.text} `{name}` only has partial definitions"
  | .unresolvedReference referenced position _ =>
    s!"unresolved reference to `{referenced}` in {position} of `{name}`"
  | .invalidReference referenced position expected found _ =>
    s!"{position} of `{name}` names {found.text} `{referenced}`, but must name {expected.text}"
  | .inheritanceCycle names _ => "inheritance cycle: " ++ " -> ".intercalate names

/-- The place to look at first. Of two sides that conflict it is the later one. -/
def locations? (problem : Problem) : Option Locations :=
  match problem.cause with
  | .kindMismatch declarations => (declarations.getLast?).map (·.2)
  | .conflictingDeclaration _ _ second | .duplicateAttribute _ _ second => some second
  | .partialOnly _ locations | .unresolvedReference _ _ locations
  | .invalidReference _ _ _ _ locations | .inheritanceCycle _ locations => some locations

def labelDeclarations (diagnostic : Diagnostic) : List (Kind × Locations) → Diagnostic
  | [] => diagnostic
  | first :: rest =>
    rest.foldl (label · · false) (label diagnostic first true)
where
  label (diagnostic : Diagnostic) (declaration : Kind × Locations) (leading : Bool) : Diagnostic :=
    diagnostic.addLocations declaration.2 s!"declared as {declaration.1.text} here" leading

def diagnostic (problem : Problem) : Diagnostic :=
  let blank := (Diagnostic.error problem.code).setMessage problem.message
  match problem.cause with
  | .kindMismatch declarations => labelDeclarations blank declarations
  | .conflictingDeclaration field first second =>
    (blank.addLocations second s!"this {field} conflicts" true).addLocations first
      "with the one declared here" false
  | .duplicateAttribute key first second =>
    ((blank.addLocations second "given a different value here" true).addLocations first
      "first given here" false).addNote
        s!"`{key}` is not repeatable; fragments must agree on its value"
  | .partialOnly _ locations =>
    (blank.addLocations locations "partial definition here" true).addNote
      s!"add a non-partial definition of `{problem.name}`"
  | .unresolvedReference referenced _ locations =>
    (blank.addLocations locations "referenced from here" true).addNote
      s!"`{referenced}` is neither a builtin type nor a known definition"
  | .invalidReference _ _ _ _ locations => blank.addLocations locations "referenced from here" true
  | .inheritanceCycle _ locations => blank.addLocations locations "cycle starts here" true

end Problem

end WebIdl
