import Mathlib.Data.List.Nodup
import WebIdl.Proofs.RenamedMerging

namespace WebIdl

theorem flatMap_eq_of_perm {α β : Type} {f : α → List β} {items items' : List α}
    (perm : items.Perm items') (alone : items.Pairwise fun one other => f one = [] ∨ f other = []) :
    items.flatMap f = items'.flatMap f := by
  induction perm with
  | nil => rfl
  | cons item _ ih => rw [List.flatMap_cons, List.flatMap_cons, ih alone.tail]
  | swap one other rest =>
    simp only [List.flatMap_cons]
    rcases List.rel_of_pairwise_cons alone List.mem_cons_self with empty | empty <;>
      simp [empty]
  | trans first _ ih ih' => rw [ih alone, ih' (first.pairwise alone Or.symm)]

variable {label : Identifier → Identifier} {policy : AttributePolicy}

theorem Fragments.faults_rename (injective : Function.Injective label) (fragments : Fragments) :
    (fragments.rename label).faults policy = fragments.faults policy := by
  unfold faults
  rw [sameKind_rename, causes_rename fragments injective, kindMismatch_rename]

theorem Fragments.merge_rename (injective : Function.Injective label) (identifier : Identifier)
    (name : String) (fragments : Fragments) :
    (fragments.rename label).merge policy (label identifier) name
      = ((fragments.merge policy identifier name).map (·.rename label)).mapError
        (·.map (·.rename label)) := by
  rw [merge_eq, merge_eq, faults_rename injective, definition_rename fragments injective]
  split
  · rfl
  · have renamed : (fragments.faults policy).map (⟨label identifier, name, ·⟩)
        = ((fragments.faults policy).map (⟨identifier, name, ·⟩)).map (Problem.rename label) := by
      rw [List.map_map]
      rfl
    exact congrArg Except.error renamed

namespace FragmentGroup

def rename (label : Identifier → Identifier) (group : FragmentGroup) : FragmentGroup :=
  ⟨label group.identifier, group.fragments.map (·.rename label)⟩

theorem fragments?_rename (group : FragmentGroup) :
    (group.rename label).fragments? = group.fragments?.map (·.rename label) := by
  obtain ⟨identifier, fragments⟩ := group
  cases fragments <;> rfl

variable {one other : Interner} {group : FragmentGroup}

section
variable (injective : Function.Injective label)
  (alike : SpelledAlike one other label group.identifier)

include injective alike

theorem merged?_rename :
    (group.rename label).merged? policy other
      = (group.merged? policy one).map fun result =>
        (result.map (·.rename label)).mapError (·.map (·.rename label)) := by
  unfold merged?
  rw [fragments?_rename, Option.map_map, Option.map_map]
  refine congrArg (Option.map · group.fragments?) (funext fun fragments => ?_)
  have name : other.spell (group.rename label).identifier = one.spell group.identifier :=
    alike.spell_eq
  rw [Function.comp_apply, name]
  exact fragments.merge_rename injective group.identifier (one.spell group.identifier)

theorem definition?_rename :
    (group.rename label).definition? policy other
      = (group.definition? policy one).map (·.rename label) := by
  unfold definition?
  rw [merged?_rename injective alike]
  rcases group.merged? policy one with none | problems | definition <;> rfl

theorem problems_rename :
    (group.rename label).problems policy other
      = (group.problems policy one).map (·.rename label) := by
  unfold problems
  rw [merged?_rename injective alike]
  rcases group.merged? policy one with none | problems | definition <;> rfl

theorem failed?_rename :
    (group.rename label).failed? policy other = (group.failed? policy one).map label := by
  unfold failed?
  rw [merged?_rename injective alike]
  rcases group.merged? policy one with none | problems | definition <;> rfl

end

end FragmentGroup

theorem fragmentsNamed_rename (injective : Function.Injective label) (fragments : List Fragment)
    (identifier : Identifier) :
    fragmentsNamed (fragments.map (·.rename label)) (label identifier)
      = (fragmentsNamed fragments identifier).map (·.rename label) := by
  have same : (fun fragment : Fragment =>
        decide ((fragment.rename label).identifier = label identifier))
      = fun fragment : Fragment => decide (fragment.identifier = identifier) := by
    funext fragment
    exact decide_eq_decide.mpr injective.eq_iff
  have sorted : (inSourceOrder (fragments.filter (·.identifier = identifier))).map (·.rename label)
      = inSourceOrder ((fragments.filter (·.identifier = identifier)).map (·.rename label)) :=
    List.map_mergeSort fun _ _ _ _ => rfl
  rw [fragmentsNamed, fragmentsNamed, List.filter_map, Function.comp_def, same, sorted]

theorem Corpus.mem_groups_rename (injective : Function.Injective label)
    (fragments : List Fragment) {group : FragmentGroup} :
    group ∈ (ofFragments (fragments.map (·.rename label))).groups
      ↔ ∃ original ∈ (ofFragments fragments).groups, original.rename label = group := by
  have registers := registers_ofFragments fragments
  rw [(registers_ofFragments (fragments.map (·.rename label))).mem_groups]
  constructor
  · rintro ⟨same, nonempty⟩
    obtain ⟨fragment, inside⟩ := List.exists_mem_of_ne_nil _ nonempty
    rw [same] at inside
    obtain ⟨member, named⟩ := mem_fragmentsNamed.mp inside
    obtain ⟨original, isOriginal, rfl⟩ := List.mem_map.mp member
    have kept : group.fragments
        = (fragmentsNamed fragments original.identifier).map (·.rename label) := by
      rw [same, ← named]
      exact fragmentsNamed_rename injective fragments original.identifier
    refine ⟨⟨original.identifier, fragmentsNamed fragments original.identifier⟩,
      (registers.mem_groups _).mpr ⟨rfl, ?_⟩, ?_⟩
    · exact List.ne_nil_of_mem (mem_fragmentsNamed.mpr ⟨isOriginal, rfl⟩)
    · obtain ⟨identifier, together⟩ := group
      rw [FragmentGroup.rename, ← kept]
      exact congrArg (FragmentGroup.mk · together) named
  · rintro ⟨original, isOriginal, rfl⟩
    obtain ⟨same, nonempty⟩ := (registers.mem_groups original).mp isOriginal
    refine ⟨?_, fun empty => nonempty (List.map_eq_nil_iff.mp empty)⟩
    calc original.fragments.map (·.rename label)
      _ = (fragmentsNamed fragments original.identifier).map (·.rename label) := by rw [← same]
      _ = _ := (fragmentsNamed_rename injective fragments original.identifier).symm

theorem Corpus.groups_rename_perm (injective : Function.Injective label)
    (fragments : List Fragment) :
    (ofFragments (fragments.map (·.rename label))).groups.Perm
      ((ofFragments fragments).groups.map (·.rename label)) := by
  have registers := registers_ofFragments fragments
  have registers' := registers_ofFragments (fragments.map (·.rename label))
  have distinct : ((ofFragments fragments).groups.map (·.rename label)).Nodup := by
    have renamed : (((ofFragments fragments).groups.map (·.rename label)).map
        (·.identifier)).Nodup := by
      have identifiers := registers.ordered.nodup.map injective
      rw [List.map_map] at identifiers ⊢
      exact identifiers
    exact renamed.of_map _
  refine (List.perm_ext_iff_of_nodup (registers'.ordered.nodup.of_map _) distinct).mpr
    fun group => ?_
  rw [mem_groups_rename injective, List.mem_map]

namespace Merged

variable (policy) {one other : Interner} {fragments : List Fragment}

section
variable (injective : Function.Injective label)
  (alike : ∀ fragment ∈ fragments, SpelledAlike one other label fragment.identifier)

include alike in
theorem alike_group {group : FragmentGroup} (member : group ∈ (Corpus.ofFragments fragments).groups) :
    SpelledAlike one other label group.identifier := by
  obtain ⟨fragment, isFragment, named⟩ :=
    (Corpus.registers_ofFragments fragments).exists_fragment member
  exact named ▸ alike fragment isFragment

include injective alike

theorem definitions_rename_perm :
    (ofHeld policy other
        (Corpus.ofFragments (fragments.map (·.rename label))).groups).definitions.Perm
      ((ofHeld policy one (Corpus.ofFragments fragments).groups).definitions.map
        (·.rename label)) := by
  have renamed : ((Corpus.ofFragments fragments).groups.map (·.rename label)).filterMap
        (·.definition? policy other)
      = ((Corpus.ofFragments fragments).groups.filterMap (·.definition? policy one)).map
        (·.rename label) := by
    rw [List.filterMap_map, List.map_filterMap]
    exact List.filterMap_congr fun group member =>
      FragmentGroup.definition?_rename injective (alike_group alike member)
  simp only [ofHeld, ← renamed]
  exact (Corpus.groups_rename_perm injective fragments).filterMap _

theorem mem_failed_rename {identifier : Identifier} :
    label identifier ∈ (ofHeld policy other
        (Corpus.ofFragments (fragments.map (·.rename label))).groups).failed
      ↔ identifier ∈ (ofHeld policy one (Corpus.ofFragments fragments).groups).failed := by
  have renamed : ((Corpus.ofFragments fragments).groups.map (·.rename label)).filterMap
        (·.failed? policy other)
      = ((Corpus.ofFragments fragments).groups.filterMap (·.failed? policy one)).map label := by
    rw [List.filterMap_map, List.map_filterMap]
    exact List.filterMap_congr fun group member =>
      FragmentGroup.failed?_rename injective (alike_group alike member)
  have perm := (Corpus.groups_rename_perm injective fragments).filterMap (·.failed? policy other)
  rw [renamed] at perm
  exact perm.mem_iff.trans (List.mem_map_of_injective injective)

/-- Which problems merging finds does not depend on the handles, and neither does the order of those
    that a report does not order. -/
theorem filter_problems_rename (problem : Problem) :
    (ofHeld policy other
        (Corpus.ofFragments (fragments.map (·.rename label))).groups).problems.filter
          (tied Report.precedes problem)
      = ((ofHeld policy one (Corpus.ofFragments fragments).groups).problems.map
        (·.rename label)).filter (tied Report.precedes problem) := by
  have registers := Corpus.registers_ofFragments fragments
  have renamed : ((Corpus.ofFragments fragments).groups.flatMap (·.problems policy one)).map
        (·.rename label)
      = ((Corpus.ofFragments fragments).groups.map (·.rename label)).flatMap
        (·.problems policy other) := by
    rw [List.map_flatMap, List.flatMap_map]
    exact List.flatMap_congr fun group member =>
      (FragmentGroup.problems_rename injective (alike_group alike member)).symm
  have alone : ((Corpus.ofFragments fragments).groups.map (·.rename label)).Pairwise
      fun group group' =>
        (group.problems policy other).filter (tied Report.precedes problem) = []
          ∨ (group'.problems policy other).filter (tied Report.precedes problem) = [] := by
    rw [List.pairwise_map]
    refine registers.ordered.imp_of_mem fun {group group'} member member' before => ?_
    by_contra! both
    -- a problem of each group has the name of `problem`, so that the groups have one name
    have named {group : FragmentGroup} (member : group ∈ (Corpus.ofFragments fragments).groups)
        (contributes : ((group.rename label).problems policy other).filter
          (tied Report.precedes problem) ≠ []) : problem.name = one.spell group.identifier := by
      obtain ⟨found, inside⟩ := List.exists_mem_of_ne_nil _ contributes
      obtain ⟨isProblem, ties⟩ := List.mem_filter.mp inside
      rw [((tied_precedes _ _).mp ties).1, (FragmentGroup.site_of_mem_problems isProblem).2]
      exact (alike_group alike member).spell_eq
    exact Identifier.ne_of_raw_lt before
      ((alike_group alike member).holds.spell_inj (alike_group alike member').holds
        ((named member both.1).symm.trans (named member' both.2)))
  simp only [ofHeld, renamed]
  rw [List.filter_flatMap, List.filter_flatMap]
  exact (flatMap_eq_of_perm (Corpus.groups_rename_perm injective fragments).symm alone).symm

end

end Merged

end WebIdl
