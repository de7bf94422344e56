import WebIdl.Fragments

namespace WebIdl

namespace FragmentGroup

def fragments? (group : FragmentGroup) : Option Fragments :=
  match group.fragments with
  | [] => none
  | first :: others => some ⟨first, others⟩

def merge? (policy : AttributePolicy) (interner : Interner) (group : FragmentGroup) :
    Except Fault (Option (Except (List Problem) RawDefinition)) :=
  match group.fragments? with
  | none => return none
  | some fragments => do
    let name ← interner.lookup group.identifier
    return some (fragments.merge policy group.identifier name)

end FragmentGroup

/-- What merging leaves: the definitions without problems, the identifiers of the others and all
    problems, in the order of the groups. -/
structure Merged where
  definitions : List RawDefinition
  failed : List Identifier
  problems : List Problem
deriving DecidableEq, Repr

namespace Merged

def empty : Merged := ⟨[], [], []⟩

instance : Inhabited Merged := ⟨empty⟩

def withResult (merged : Merged) (identifier : Identifier) :
    Except (List Problem) RawDefinition → Merged
  | .ok definition => { merged with definitions := definition :: merged.definitions }
  | .error problems =>
    { merged with
      failed := identifier :: merged.failed
      problems := problems ++ merged.problems }

def ofGroups (policy : AttributePolicy) (interner : Interner) :
    List FragmentGroup → Except Fault Merged
  | [] => return empty
  | group :: groups => do
    let result ← group.merge? policy interner
    let merged ← ofGroups policy interner groups
    return match result with
    | none => merged
    | some result => merged.withResult group.identifier result

end Merged

end WebIdl
