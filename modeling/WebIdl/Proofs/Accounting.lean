import WebIdl.Proofs.Arrival

namespace WebIdl

namespace Corpus

theorem fragments_insertGroup (fragment : Fragment) (groups : List FragmentGroup) :
    ((insertGroup fragment groups).flatMap (·.fragments)).Perm
      (fragment :: groups.flatMap (·.fragments)) := by
  induction groups with
  | nil => exact .refl _
  | cons next rest ih =>
    simp only [insertGroup]
    split
    · exact .refl _
    · split
      · exact (insertFragment_perm fragment next.fragments).append_right _
      · exact (ih.append_left next.fragments).trans List.perm_middle

theorem fragments_ofFragments (fragments : List Fragment) :
    (ofFragments fragments).fragments.Perm fragments := by
  suffices later : ∀ (corpus : Corpus) (after : List Fragment),
      (after.foldl insert corpus).fragments.Perm (corpus.fragments ++ after) by
    exact later .empty fragments
  intro corpus after
  induction after generalizing corpus with
  | nil => simp
  | cons fragment after ih =>
    have first : (corpus.insert fragment).fragments.Perm (fragment :: corpus.fragments) :=
      fragments_insertGroup fragment corpus.groups
    exact (ih (corpus.insert fragment)).trans
      ((first.append_right after).trans List.perm_middle.symm)

/-- All that can be read from the corpus is what was registered, in the order in which it is to be
    merged. -/
structure Accounts (corpus : Corpus) (fragments : List Fragment) : Prop where
  fragmentCount : corpus.fragmentCount = fragments.length
  size : corpus.size = (firstOccurrences (fragments.map (·.identifier))).length
  increasing : corpus.identifiers.Pairwise (·.raw < ·.raw)
  mem_identifiers : ∀ identifier, identifier ∈ corpus.identifiers
    ↔ ∃ fragment ∈ fragments, fragment.identifier = identifier
  own : ∀ identifier, (corpus.fragmentsOf identifier).Perm
    (fragments.filter (·.identifier = identifier))
  inSourceOrder : ∀ identifier,
    (corpus.fragmentsOf identifier).Pairwise (·.sourceOrder ≤ ·.sourceOrder)
  ties : ∀ identifier sourceOrder, tiesAt (corpus.fragmentsOf identifier) identifier sourceOrder
    = tiesAt fragments identifier sourceOrder
  unregistered : ∀ identifier, identifier ∉ corpus.identifiers →
    corpus.fragmentsOf identifier = []
  isEmpty_iff : corpus.isEmpty ↔ corpus.identifiers = []
  groups : corpus.groups
    = corpus.identifiers.map fun identifier => ⟨identifier, corpus.fragmentsOf identifier⟩
  group : ∀ group ∈ corpus.groups, group.fragments ≠ []
    ∧ ∀ fragment ∈ group.fragments, fragment.identifier = group.identifier
  complete : (corpus.groups.flatMap (·.fragments)).Perm fragments

namespace Registers

variable {corpus : Corpus} {fragments : List Fragment}

theorem size_eq (registers : Registers corpus fragments) :
    corpus.size = (firstOccurrences (fragments.map (·.identifier))).length := by
  have same : corpus.identifiers.Perm (firstOccurrences (fragments.map (·.identifier))) := by
    refine (List.perm_ext_iff_of_nodup registers.ordered.nodup (nodup_firstOccurrences _)).mpr ?_
    intro identifier
    show identifier ∈ corpus.identifiers ↔ _
    rw [registers.mem_identifiers_iff, mem_firstOccurrences, List.mem_map]
  rw [← same.length_eq, identifiers, List.length_map, size]

theorem groups_eq (registers : Registers corpus fragments) : corpus.groups
    = corpus.identifiers.map fun identifier => ⟨identifier, corpus.fragmentsOf identifier⟩ := by
  have each : ∀ group ∈ corpus.groups,
      (⟨group.identifier, corpus.fragmentsOf group.identifier⟩ : FragmentGroup) = group := by
    intro group member
    rw [registers.fragmentsOf_eq, ← ((registers.mem_groups group).mp member).1]
  rw [identifiers, List.map_map]
  exact ((List.map_congr_left each).trans (List.map_id _)).symm

end Registers

theorem tiesAt_fragmentsNamed (fragments : List Fragment) (identifier : Identifier)
    (sourceOrder : Nat) : tiesAt (fragmentsNamed fragments identifier) identifier sourceOrder
      = tiesAt fragments identifier sourceOrder := by
  have sorted : tiesAt (fragmentsNamed fragments identifier) identifier sourceOrder
      = tiesAt (fragments.filter (·.identifier = identifier)) identifier sourceOrder := by
    refine filter_mergeSort isRanking_notAfter _ _ fun one other first second => ?_
    have same := (of_decide_eq_true first).2.trans (of_decide_eq_true second).2.symm
    exact decide_eq_true (Nat.le_of_eq same)
  rw [sorted, tiesAt, tiesAt, List.filter_filter]
  refine List.filter_congr fun fragment _ => ?_
  by_cases own : fragment.identifier = identifier <;> simp [own]

theorem accounts_ofFragments (fragments : List Fragment) :
    (ofFragments fragments).Accounts fragments := by
  have registers := registers_ofFragments fragments
  have perm := fragments_ofFragments fragments
  have count : (ofFragments fragments).fragmentCount = fragments.length := perm.length_eq
  constructor
  case fragmentCount => exact count
  case size => exact registers.size_eq
  case increasing => exact List.pairwise_map.mpr registers.ordered
  case mem_identifiers => exact fun identifier => registers.mem_identifiers_iff
  case own =>
    intro identifier
    rw [registers.fragmentsOf_eq]
    exact List.mergeSort_perm _ _
  case inSourceOrder =>
    intro identifier
    rw [registers.fragmentsOf_eq]
    refine (List.pairwise_mergeSort isRanking_notAfter.transitive isRanking_notAfter.total _).imp ?_
    exact fun {one other} ordered => of_decide_eq_true ordered
  case ties =>
    intro identifier sourceOrder
    rw [registers.fragmentsOf_eq, tiesAt_fragmentsNamed]
  case unregistered =>
    intro identifier absent
    rw [registers.fragmentsOf_eq, List.eq_nil_iff_forall_not_mem]
    intro fragment member
    exact absent (registers.mem_identifiers_iff.mpr ⟨fragment, mem_fragmentsNamed.mp member⟩)
  case isEmpty_iff =>
    rw [isEmpty, count, beq_iff_eq, List.length_eq_zero_iff, List.eq_nil_iff_forall_not_mem,
      List.eq_nil_iff_forall_not_mem]
    simp only [registers.mem_identifiers_iff]
    grind
  case groups => exact registers.groups_eq
  case group =>
    intro group member
    obtain ⟨same, nonempty⟩ := (registers.mem_groups group).mp member
    refine ⟨nonempty, fun fragment inside => ?_⟩
    exact (mem_fragmentsNamed.mp (same ▸ inside)).2
  case complete => exact perm

end Corpus

end WebIdl
