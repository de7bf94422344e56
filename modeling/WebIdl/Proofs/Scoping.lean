import Mathlib.Data.List.Nodup
import Mathlib.Data.List.Perm.Subperm
import WebIdl.Proofs.Resolving

namespace WebIdl

def DistinctlyNamed (definitions : List RawDefinition) : Prop :=
  (definitions.map (·.identifier)).Nodup

namespace DistinctlyNamed

variable {definitions : List RawDefinition}

theorem place_eq (distinct : DistinctlyNamed definitions) {one other : RawDefinition}
    {place place' : Nat} (found : definitions[place]? = some one)
    (found' : definitions[place']? = some other) (same : one.identifier = other.identifier) :
    place = place' := by
  have bound := (List.getElem?_eq_some_iff.mp found).1
  refine (List.getElem?_inj (by simpa using bound) distinct).mp ?_
  rw [List.getElem?_map, List.getElem?_map, found, found', Option.map_some, Option.map_some, same]

theorem length_le (distinct : DistinctlyNamed definitions) : definitions.length ≤ UInt32.size := by
  have raw : (definitions.map (·.identifier.raw.toNat)).Nodup := by
    rw [DistinctlyNamed, List.nodup_iff_pairwise_ne, List.pairwise_map] at distinct
    rw [List.nodup_iff_pairwise_ne, List.pairwise_map]
    refine distinct.imp fun {one other} differ same => differ ?_
    exact congrArg Identifier.mk (UInt32.toNat_inj.mp same)
  have small : definitions.map (·.identifier.raw.toNat) ⊆ List.range UInt32.size := by
    intro value member
    obtain ⟨definition, _, rfl⟩ := List.mem_map.mp member
    exact List.mem_range.mpr definition.identifier.raw.toNat_lt
  simpa using (raw.subperm small).length_le

theorem toNat_ofNat_place (distinct : DistinctlyNamed definitions) {place : Nat}
    (bound : place < definitions.length) : (UInt32.ofNat place).toNat = place :=
  UInt32.toNat_ofNat_of_lt' (Nat.lt_of_lt_of_le bound distinct.length_le)

theorem perm {others : List RawDefinition} (distinct : DistinctlyNamed definitions)
    (same : others.Perm definitions) : DistinctlyNamed others :=
  (same.map _).nodup_iff.mpr distinct

end DistinctlyNamed

theorem sortedByName_perm (spell : Identifier → String) (definitions : List RawDefinition) :
    (sortedByName spell definitions).Perm definitions :=
  List.mergeSort_perm definitions _

theorem pairwise_le_sortedByName (spell : Identifier → String) (definitions : List RawDefinition) :
    (sortedByName spell definitions).Pairwise fun one other =>
      spell one.identifier ≤ spell other.identifier := by
  have ranking := isRanking_names fun definition : RawDefinition => spell definition.identifier
  have sorted := List.pairwise_mergeSort ranking.transitive ranking.total definitions
  exact sorted.imp of_decide_eq_true

theorem sortedByName_eq {spell : Identifier → String} {definitions ordered : List RawDefinition}
    (perm : ordered.Perm definitions)
    (sorted : ordered.Pairwise fun one other => spell one.identifier < spell other.identifier) :
    sortedByName spell definitions = ordered := by
  have same := (sortedByName_perm spell definitions).trans perm.symm
  have distinct : (ordered.map fun definition => spell definition.identifier).Nodup := by
    rw [List.nodup_iff_pairwise_ne, List.pairwise_map]
    exact sorted.imp Std.ne_of_lt
  refine same.eq_of_pairwise ?_ (pairwise_le_sortedByName spell definitions)
    (sorted.imp Std.le_of_lt)
  intro one other member member' before after
  exact List.inj_on_of_nodup_map distinct (same.mem_iff.mp member) member'
    (Std.le_antisymm before after)

namespace Scope

variable {interner : Interner} {definitions : List RawDefinition} {failed : List Identifier}

theorem find?_eq_some_iff (distinct : DistinctlyNamed definitions) {identifier : Identifier}
    {definition : RawDefinition} {place : Nat} :
    (ofDefinitions interner definitions failed).find? identifier = some (definition, place)
      ↔ definitions[place]? = some definition ∧ definition.identifier = identifier := by
  have sound {known : RawDefinition × Nat}
      (found : (ofDefinitions interner definitions failed).find? identifier = some known) :
      definitions[known.2]? = some known.1 ∧ known.1.identifier = identifier := by
    have member := List.mem_reverse.mp (List.mem_of_find?_eq_some found)
    exact ⟨List.mem_zipIdx_iff_getElem?.mp member, by simpa using List.find?_some found⟩
  constructor
  · exact sound
  · rintro ⟨placed, same⟩
    cases found : (ofDefinitions interner definitions failed).find? identifier with
    | none =>
      have member := List.mem_reverse.mpr (List.mk_mem_zipIdx_iff_getElem?.mpr placed)
      have absent := List.find?_eq_none.mp found _ member
      simp [same] at absent
    | some known =>
      obtain ⟨placed', same'⟩ := sound found
      have equal : place = known.2 := distinct.place_eq placed placed' (same.trans same'.symm)
      rw [equal, placed'] at placed
      rw [equal, ← Option.some.inj placed]

theorem find?_eq_none_iff {identifier : Identifier} :
    (ofDefinitions interner definitions failed).find? identifier = none
      ↔ ∀ definition ∈ definitions, definition.identifier ≠ identifier := by
  simp only [find?, ofDefinitions, List.find?_eq_none, List.mem_reverse, decide_eq_true_eq]
  constructor
  · intro absent definition member
    obtain ⟨place, bound, rfl⟩ := List.mem_iff_getElem.mp member
    exact absent _ (List.mk_mem_zipIdx_iff_getElem?.mpr (List.getElem?_eq_getElem bound))
  · intro absent known member
    exact absent _ (List.mem_of_getElem? (List.mem_zipIdx_iff_getElem?.mp member))

theorem kind?_eq_some_iff (distinct : DistinctlyNamed definitions) {identifier : Identifier}
    {kind : Kind} :
    (ofDefinitions interner definitions failed).kind? identifier = some kind
      ↔ ∃ definition ∈ definitions, definition.identifier = identifier
        ∧ definition.kind = kind := by
  simp only [kind?, Option.map_eq_some_iff, Prod.exists, find?_eq_some_iff distinct,
    List.mem_iff_getElem?]
  grind

theorem parent?_eq_some_iff (distinct : DistinctlyNamed definitions) {child parent : Identifier} :
    (ofDefinitions interner definitions failed).parent? child = some parent ↔
      ∃ definition ∈ definitions, definition.identifier = child
        ∧ definition.body.inherited? = some parent
        ∧ ∃ other ∈ definitions, other.identifier = parent ∧ other.kind = definition.kind := by
  simp only [parent?, Option.bind_eq_bind, Option.bind_eq_some_iff, Prod.exists,
    find?_eq_some_iff distinct, kind?_eq_some_iff distinct, List.mem_iff_getElem?,
    Option.ite_none_right_eq_some, Option.some.injEq]
  constructor
  · rintro ⟨definition, place, ⟨placed, same⟩, _, stated, kind, known, rfl, rfl⟩
    exact ⟨definition, ⟨place, placed⟩, same, stated, known⟩
  · rintro ⟨definition, ⟨place, placed⟩, same, stated, known⟩
    exact ⟨definition, place, ⟨placed, same⟩, parent, stated, _, known, rfl, rfl⟩

theorem reference?_eq_some_iff (distinct : DistinctlyNamed definitions) {expected : Kind}
    {name : Identifier} {handle : Handle} :
    (ofDefinitions interner definitions failed).reference? expected name = some handle ↔
      ∃ place definition, definitions[place]? = some definition ∧ definition.identifier = name
        ∧ definition.kind = expected ∧ handle = ⟨name, .ofNat place⟩ := by
  unfold reference?
  cases found : (ofDefinitions interner definitions failed).find? name with
  | none =>
    have absent := find?_eq_none_iff.mp found
    simp only [reduceCtorEq, false_iff]
    rintro ⟨place, definition, placed, same, -⟩
    exact absent definition (List.mem_of_getElem? placed) same
  | some known =>
    obtain ⟨placed, same⟩ := (find?_eq_some_iff distinct).mp found
    simp only [Option.ite_none_right_eq_some, Option.some.injEq]
    constructor
    · exact fun ⟨kind, equal⟩ => ⟨known.2, known.1, placed, same, kind, equal.symm⟩
    · rintro ⟨place, definition, placed', same', kind, rfl⟩
      have equal := distinct.place_eq placed placed' (same.trans same'.symm)
      rw [equal, placed'] at placed
      exact ⟨Option.some.inj placed ▸ kind, by rw [equal]⟩

/-- A name that resolves to a definition is not the name of a builtin type. -/
theorem referent_eq_definition (distinct : DistinctlyNamed definitions) {name : Identifier}
    {handle : Handle}
    (resolves : (ofDefinitions interner definitions failed).referent name = .definition handle) :
    ∃ place definition, definitions[place]? = some definition ∧ definition.identifier = name
      ∧ handle = ⟨name, .ofNat place⟩ := by
  unfold referent at resolves
  split at resolves
  · nomatch resolves
  · unfold handle? at resolves
    cases found : (ofDefinitions interner definitions failed).find? name with
    | none =>
      rw [found] at resolves
      nomatch resolves
    | some known =>
      rw [found] at resolves
      obtain ⟨placed, same⟩ := (find?_eq_some_iff distinct).mp found
      exact ⟨known.2, known.1, placed, same, (Referent.definition.inj resolves).symm⟩

theorem causeAt?_type_eq_none_iff {locations : Locations} {position : Position}
    {name : Identifier} :
    (ofDefinitions interner definitions []).causeAt? locations (.type position name) = none ↔
      (BuiltinType.ofSpelling? (interner.spell name)).isSome
        ∨ ∃ definition ∈ definitions, definition.identifier = name := by
  have spelled : (ofDefinitions interner definitions []).interner = interner := rfl
  simp only [causeAt?, spelled]
  cases BuiltinType.ofSpelling? (interner.spell name) with
  | some type => simp
  | none =>
    cases found : (ofDefinitions interner definitions []).find? name with
    | none =>
      have absent := find?_eq_none_iff.mp found
      simpa [unresolved?, ofDefinitions] using absent
    | some known =>
      have isKnown : ¬ ∀ definition ∈ definitions, definition.identifier ≠ name := by
        rw [← find?_eq_none_iff, found]
        exact Option.some_ne_none known
      simpa using isKnown

theorem causeAt?_reference_eq_none_iff (distinct : DistinctlyNamed definitions)
    {locations : Locations} {expected : Kind} {position : Position} {name : Identifier} :
    (ofDefinitions interner definitions []).causeAt? locations (.reference expected position name)
        = none ↔
      ∃ definition ∈ definitions, definition.identifier = name ∧ definition.kind = expected := by
  rw [← kind?_eq_some_iff distinct]
  simp only [causeAt?, kind?]
  cases (ofDefinitions interner definitions []).find? name with
  | none => simp [unresolved?, ofDefinitions]
  | some known => simp

end Scope

end WebIdl
