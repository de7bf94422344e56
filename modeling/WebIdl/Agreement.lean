import WebIdl.SourceLocation

namespace WebIdl

structure Sourced (α : Type) where
  value : α
  locations : Locations
deriving DecidableEq, Repr

structure Conflict (α : Type) where
  earlier : Sourced α
  later : Sourced α
deriving DecidableEq, Repr

/-- How statements about keys agree. A repeatable key keeps every distinct statement. Of any other
    key the first statement stands, and a later one may only say the same again. -/
structure Agreement (α κ : Type) where
  key : α → κ
  isRepeatable : κ → Bool

namespace Agreement

variable {α κ : Type} [DecidableEq α] [DecidableEq κ]

def add (agreement : Agreement α κ) (kept : List (Sourced α)) (said : Sourced α) :
    List (Sourced α) × Option (Conflict α) :=
  if agreement.isRepeatable (agreement.key said.value) then
    if kept.any (·.value = said.value) then (kept, none) else (kept ++ [said], none)
  else
    match kept.find? (agreement.key ·.value = agreement.key said.value) with
    | none => (kept ++ [said], none)
    | some first =>
      if first.value = said.value then (kept, none) else (kept, some ⟨first, said⟩)

def addAll (agreement : Agreement α κ) (kept : List (Sourced α)) :
    List (Sourced α) → List (Sourced α) × List (Conflict α)
  | [] => (kept, [])
  | said :: rest =>
    let (kept, conflict) := agreement.add kept said
    let (kept, conflicts) := agreement.addAll kept rest
    (kept, conflict.toList ++ conflicts)

def addEach (agreement : Agreement α κ) (kept : List (Sourced α)) :
    List (List (Sourced α)) → List (Sourced α) × List (List (Conflict α))
  | [] => (kept, [])
  | said :: rest =>
    let (kept, conflicts) := agreement.addAll kept said
    let (kept, others) := agreement.addEach kept rest
    (kept, conflicts :: others)

end Agreement

end WebIdl
