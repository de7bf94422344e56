import Mathlib
import WebIdl.Problem.Basic

namespace WebIdl

/-- The locations that a problem points at, one list for each side. The first side leads. -/
def Problem.Cause.sides : Problem.Cause → List Locations
  | .kindMismatch declarations => declarations.map (·.2)
  | .conflictingDeclaration _ first second | .duplicateAttribute _ first second => [second, first]
  | .partialOnly _ locations | .unresolvedReference _ _ locations
  | .invalidReference _ _ _ _ locations | .inheritanceCycle _ locations => [locations]

structure Diagnostic.Shows (diagnostic : Diagnostic) (problem : Problem) : Prop where
  code : diagnostic.code = problem.code
  message : diagnostic.message = problem.message
  isError : diagnostic.isError
  size : diagnostic.labels.length = (problem.cause.sides.map (·.entries.length)).sum
  locations : diagnostic.labels.map (·.location) = problem.cause.sides.flatMap (·.entries)
  onePrimary : diagnostic.labels.countP (·.isPrimary) ≤ 1
  primaryFirst : ∀ place label, diagnostic.labels[place]? = some label → label.isPrimary →
    place = 0
  hasPrimary : (∃ label ∈ diagnostic.labels, label.isPrimary)
    ↔ ∃ leading ∈ problem.cause.sides.head?, leading.entries ≠ []
  primary : diagnostic.primary? = problem.cause.sides.head?.bind (·.first?)
  /-- A mismatch of kinds leads with the first declaration, but is located at the last one. -/
  located : problem.code ≠ .kindMismatch →
    diagnostic.primary? = problem.locations?.bind (·.first?)

/-- The labels show the sides in their order. The only primary one stands before all others, at
    the first location of the leading side. -/
structure Marks (labels : List Label) (sides : List Locations) : Prop where
  locations : labels.map (·.location) = sides.flatMap (·.entries)
  split : ∃ (marked : Option Label) (plain : List Label), labels = marked.toList ++ plain
    ∧ (∀ label ∈ marked, label.isPrimary) ∧ (∀ label ∈ plain, label.isPrimary = false)
    ∧ marked.map (·.location) = sides.head?.bind (·.first?)

namespace Diagnostic

def labelsFor (locations : Locations) (message : String) (leading : Bool) : List Label :=
  match locations.entries with
  | [] => []
  | first :: rest => ⟨first, message, leading⟩ :: rest.map (⟨·, message, false⟩)

theorem foldl_addSecondary (diagnostic : Diagnostic) (places : List SourceLocation)
    (message : String) : places.foldl (·.addSecondary · message) diagnostic
      = { diagnostic with labels := diagnostic.labels ++ places.map (⟨·, message, false⟩) } := by
  induction places generalizing diagnostic with
  | nil => simp
  | cons place places ih =>
    rw [List.foldl_cons, ih]
    simp [addSecondary, addLabel]

theorem addLocations_eq (diagnostic : Diagnostic) (locations : Locations) (message : String)
    (leading : Bool) : diagnostic.addLocations locations message leading
      = { diagnostic with
          labels := diagnostic.labels ++ labelsFor locations message leading } := by
  unfold addLocations labelsFor
  cases locations.entries with
  | nil => simp
  | cons first rest =>
    simp only [foldl_addSecondary]
    simp [addLabel]

theorem location_labelsFor (locations : Locations) (message : String) (leading : Bool) :
    (labelsFor locations message leading).map (·.location) = locations.entries := by
  unfold labelsFor
  cases locations.entries with
  | nil => rfl
  | cons first rest => simp [Function.comp_def]

theorem isPrimary_labelsFor {locations : Locations} {message : String} :
    ∀ label ∈ labelsFor locations message false, label.isPrimary = false := by
  unfold labelsFor
  cases locations.entries with
  | nil => exact nofun
  | cons first rest => simp

end Diagnostic

namespace Marks

open Diagnostic (labelsFor location_labelsFor isPrimary_labelsFor)

theorem nothing : Marks [] [] := ⟨rfl, none, [], rfl, nofun, nofun, rfl⟩

theorem lead (locations : Locations) (message : String) :
    Marks (labelsFor locations message true) [locations] := by
  have shown : (labelsFor locations message true).map (·.location)
      = [locations].flatMap (·.entries) := by
    rw [location_labelsFor, List.flatMap_singleton]
  cases entries : locations.entries with
  | nil =>
    have nowhere : locations.first? = none := by simp [Locations.first?, entries]
    exact ⟨shown, none, [], by simp [labelsFor, entries], nofun, nofun, by simp [nowhere]⟩
  | cons first rest =>
    have here : locations.first? = some first := by simp [Locations.first?, entries]
    exact ⟨shown, some ⟨first, message, true⟩, rest.map (⟨·, message, false⟩),
      by simp [labelsFor, entries], by simp, by simp, by simp [here]⟩

theorem follow {labels : List Label} {leading : Locations} {others : List Locations}
    (marks : Marks labels (leading :: others)) (locations : Locations) (message : String) :
    Marks (labels ++ labelsFor locations message false) (leading :: (others ++ [locations])) := by
  obtain ⟨shown, marked, plain, same, isMarked, isPlain, first⟩ := marks
  have shown' : (labels ++ labelsFor locations message false).map (·.location)
      = (leading :: (others ++ [locations])).flatMap (·.entries) := by
    rw [List.map_append, shown, location_labelsFor, ← List.cons_append, List.flatMap_append,
      List.flatMap_singleton]
  have isPlain' : ∀ label ∈ plain ++ labelsFor locations message false,
      label.isPrimary = false := by
    intro label member
    cases List.mem_append.mp member with
    | inl member => exact isPlain label member
    | inr member => exact isPrimary_labelsFor label member
  exact ⟨shown', marked, plain ++ labelsFor locations message false,
    by rw [same, List.append_assoc], isMarked, isPlain', first⟩

variable {labels : List Label} {sides : List Locations}

theorem length_eq (marks : Marks labels sides) :
    labels.length = (sides.map (·.entries.length)).sum := by
  have lengths := congrArg List.length marks.locations
  rwa [List.length_map, List.length_flatMap] at lengths

theorem countP_le_one (marks : Marks labels sides) : labels.countP (·.isPrimary) ≤ 1 := by
  obtain ⟨marked, plain, same, -, isPlain, -⟩ := marks.split
  have none : plain.countP (·.isPrimary) = 0 := by
    rw [List.countP_eq_zero]
    intro label member
    simp [isPlain label member]
  rw [same, List.countP_append, none]
  cases marked with
  | none => exact Nat.zero_le 1
  | some label => exact List.countP_le_length

theorem place_eq_zero (marks : Marks labels sides) {place : Nat} {label : Label}
    (found : labels[place]? = some label) (primary : label.isPrimary) : place = 0 := by
  obtain ⟨marked, plain, same, -, isPlain, -⟩ := marks.split
  have outside : label ∉ plain := by
    intro member
    rw [isPlain label member] at primary
    cases primary
  rw [same] at found
  cases marked with
  | none => exact absurd (List.mem_of_getElem? found) outside
  | some first =>
    cases place with
    | zero => rfl
    | succ place =>
      have later : plain[place]? = some label := found
      exact absurd (List.mem_of_getElem? later) outside

theorem find?_eq (marks : Marks labels sides) :
    (labels.find? (·.isPrimary)).map (·.location) = sides.head?.bind (·.first?) := by
  obtain ⟨marked, plain, same, isMarked, isPlain, first⟩ := marks.split
  have none : plain.find? (·.isPrimary) = none := by
    rw [List.find?_eq_none]
    intro label member
    simp [isPlain label member]
  rw [← first, same, List.find?_append, none, Option.or_none]
  cases marked with
  | none => rfl
  | some label => rw [Option.toList_some, List.find?_singleton, if_pos (isMarked label rfl)]

theorem exists_primary_iff (marks : Marks labels sides) :
    (∃ label ∈ labels, label.isPrimary) ↔ ∃ leading ∈ sides.head?, leading.entries ≠ [] := by
  have leads : (∃ leading ∈ sides.head?, leading.entries ≠ [])
      ↔ (sides.head?.bind (·.first?)).isSome := by
    cases sides.head? with
    | none => simp
    | some leading => simp [Locations.first?]
  rw [leads, ← marks.find?_eq, Option.isSome_map, List.find?_isSome]

end Marks

structure Drafts (problem : Problem) (diagnostic : Diagnostic) (sides : List Locations) :
    Prop where
  code : diagnostic.code = problem.code
  message : diagnostic.message = problem.message
  severity : diagnostic.severity = .error
  marks : Marks diagnostic.labels sides

namespace Drafts

variable {problem : Problem} {diagnostic : Diagnostic} {leading : Locations}
  {others : List Locations}

theorem blank (problem : Problem) :
    Drafts problem ((Diagnostic.error problem.code).setMessage problem.message) [] :=
  ⟨rfl, rfl, rfl, .nothing⟩

theorem lead (draft : Drafts problem diagnostic []) (locations : Locations) (message : String) :
    Drafts problem (diagnostic.addLocations locations message true) [locations] := by
  have none : diagnostic.labels = [] := List.map_eq_nil_iff.mp draft.marks.locations
  rw [Diagnostic.addLocations_eq, none]
  exact ⟨draft.code, draft.message, draft.severity, .lead locations message⟩

theorem follow (draft : Drafts problem diagnostic (leading :: others)) (locations : Locations)
    (message : String) : Drafts problem (diagnostic.addLocations locations message false)
      (leading :: (others ++ [locations])) := by
  rw [Diagnostic.addLocations_eq]
  exact ⟨draft.code, draft.message, draft.severity, draft.marks.follow locations message⟩

theorem note (draft : Drafts problem diagnostic others) (note : String) :
    Drafts problem (diagnostic.addNote note) others :=
  ⟨draft.code, draft.message, draft.severity, draft.marks⟩

theorem followAll (draft : Drafts problem diagnostic (leading :: others))
    (declarations : List (Kind × Locations)) :
    Drafts problem (declarations.foldl (Problem.labelDeclarations.label · · false) diagnostic)
      (leading :: (others ++ declarations.map (·.2))) := by
  induction declarations generalizing diagnostic others with
  | nil => simpa using draft
  | cons next rest ih =>
    have step : Drafts problem (Problem.labelDeclarations.label diagnostic next false)
        (leading :: (others ++ [next.2])) := draft.follow next.2 _
    rw [List.foldl_cons, List.map_cons, List.append_cons]
    exact ih step

end Drafts

namespace Problem

theorem drafts_diagnostic (problem : Problem) :
    Drafts problem problem.diagnostic problem.cause.sides := by
  have blank := Drafts.blank problem
  unfold diagnostic
  cases problem.cause with
  | kindMismatch declarations =>
    cases declarations with
    | nil => exact blank
    | cons first rest => exact (blank.lead first.2 _).followAll rest
  | conflictingDeclaration field first second => exact (blank.lead second _).follow first _
  | duplicateAttribute key first second => exact ((blank.lead second _).follow first _).note _
  | partialOnly kind locations => exact (blank.lead locations _).note _
  | unresolvedReference referenced position locations => exact (blank.lead locations _).note _
  | invalidReference referenced position expected found locations => exact blank.lead locations _
  | inheritanceCycle names locations => exact blank.lead locations _

theorem locations?_eq_head? {problem : Problem} (single : problem.code ≠ .kindMismatch) :
    problem.locations? = problem.cause.sides.head? := by
  unfold code at single
  unfold locations?
  cases cause : problem.cause with
  | kindMismatch declarations => exact absurd (congrArg Cause.code cause) single
  | _ => rfl

theorem shows_diagnostic (problem : Problem) : problem.diagnostic.Shows problem := by
  have drafts := problem.drafts_diagnostic
  have primary : problem.diagnostic.primary? = problem.cause.sides.head?.bind (·.first?) :=
    drafts.marks.find?_eq
  exact {
    code := drafts.code
    message := drafts.message
    isError := by rw [Diagnostic.isError, drafts.severity]; rfl
    size := drafts.marks.length_eq
    locations := drafts.marks.locations
    onePrimary := drafts.marks.countP_le_one
    primaryFirst := fun _ _ => drafts.marks.place_eq_zero
    hasPrimary := drafts.marks.exists_primary_iff
    primary
    located := fun single => by rw [primary, locations?_eq_head? single] }

end Problem

end WebIdl
