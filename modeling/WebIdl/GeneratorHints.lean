import WebIdl.SourceLocation

namespace WebIdl

/-- Advice for a code generator. It carries no meaning of the definition itself. -/
structure GeneratorHints where
  nameOverride : Option String
  headerPath : Option String
  skipEmission : Option Bool
deriving DecidableEq, Repr

namespace GeneratorHints

inductive Field where
  | nameOverride
  | headerPath
  | skipEmission
deriving DecidableEq, Repr

def Field.all : List Field := [.nameOverride, .headerPath, .skipEmission]

def Field.text : Field → String
  | .nameOverride => "name_override"
  | .headerPath => "header_path"
  | .skipEmission => "skip_emission"

structure Override where
  field : Field
  previous : String
  current : String
  locations : Locations
deriving DecidableEq, Repr

def unset : GeneratorHints := ⟨none, none, none⟩

instance : Inhabited GeneratorHints := ⟨unset⟩

def get? (hints : GeneratorHints) : Field → Option String
  | .nameOverride => hints.nameOverride
  | .headerPath => hints.headerPath
  | .skipEmission => hints.skipEmission.map fun skip => if skip then "true" else "false"

def isUnset (hints : GeneratorHints) : Bool :=
  hints.nameOverride.isNone && hints.headerPath.isNone && hints.skipEmission.isNone

def skips (hints : GeneratorHints) : Bool := hints.skipEmission.getD false

def update (hints later : GeneratorHints) : GeneratorHints where
  nameOverride := later.nameOverride.or hints.nameOverride
  headerPath := later.headerPath.or hints.headerPath
  skipEmission := later.skipEmission.or hints.skipEmission

@[simp] theorem update_unset (hints : GeneratorHints) : hints.update unset = hints := rfl

@[simp] theorem unset_update (hints : GeneratorHints) : unset.update hints = hints := by
  simp [update, unset]

theorem update_assoc (hints later last : GeneratorHints) :
    (hints.update later).update last = hints.update (later.update last) := by
  simp [update, Option.or_assoc]

def overrides (hints later : GeneratorHints) (locations : Locations) : List Override :=
  Field.all.filterMap fun field =>
    match hints.get? field, later.get? field with
    | some previous, some current =>
      if previous = current then none else some ⟨field, previous, current, locations⟩
    | _, _ => none

def updateAll (hints : GeneratorHints) :
    List (GeneratorHints × Locations) → GeneratorHints × List Override
  | [] => (hints, [])
  | (later, locations) :: rest =>
    let (final, log) := (hints.update later).updateAll rest
    (final, hints.overrides later locations ++ log)

end GeneratorHints

end WebIdl
