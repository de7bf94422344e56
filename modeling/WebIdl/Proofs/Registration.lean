import WebIdl.Corpus
import WebIdl.Proofs.StableOrder

namespace WebIdl

def Fragment.notAfter (one other : Fragment) : Bool := decide (one.sourceOrder ≤ other.sourceOrder)

theorem isRanking_notAfter : IsRanking Fragment.notAfter where
  transitive one other third first second := by
    simp only [Fragment.notAfter, decide_eq_true_eq] at first second ⊢
    omega
  total one other := by
    simp only [Fragment.notAfter, Bool.or_eq_true, decide_eq_true_eq]
    omega

theorem tied_notAfter (one other : Fragment) :
    tied Fragment.notAfter one other = decide (one.sourceOrder = other.sourceOrder) := by
  simp only [tied, Fragment.notAfter, ← Bool.decide_and]
  exact decide_eq_decide.mpr (by omega)

def inSourceOrder (fragments : List Fragment) : List Fragment :=
  fragments.mergeSort Fragment.notAfter

/-- The fragments of one definition in the order in which they are merged. -/
def fragmentsNamed (fragments : List Fragment) (identifier : Identifier) : List Fragment :=
  inSourceOrder (fragments.filter (·.identifier = identifier))

@[simp] theorem mem_fragmentsNamed {fragments : List Fragment} {identifier : Identifier}
    {fragment : Fragment} :
    fragment ∈ fragmentsNamed fragments identifier
      ↔ fragment ∈ fragments ∧ fragment.identifier = identifier := by
  simp [fragmentsNamed, inSourceOrder]

theorem Identifier.ne_of_raw_lt {one other : Identifier} (before : one.raw < other.raw) :
    one ≠ other := by
  rintro rfl
  exact UInt32.lt_irrefl _ before

namespace Corpus

theorem insertFragment_perm (fragment : Fragment) (fragments : List Fragment) :
    (insertFragment fragment fragments).Perm (fragment :: fragments) := by
  induction fragments with
  | nil => exact .refl _
  | cons next rest ih =>
    simp only [insertFragment]
    split
    · exact .refl _
    · exact (ih.cons next).trans (.swap ..)

theorem insertFragment_sorted {fragment : Fragment} {fragments : List Fragment}
    (sorted : fragments.Pairwise (Fragment.notAfter · ·)) :
    (insertFragment fragment fragments).Pairwise (Fragment.notAfter · ·) := by
  induction fragments with
  | nil => simp [insertFragment]
  | cons next rest ih =>
    have after := List.pairwise_cons.mp sorted
    simp only [insertFragment]
    split
    · rename_i before
      refine List.pairwise_cons.mpr ⟨fun other member => ?_, sorted⟩
      rcases List.mem_cons.mp member with rfl | member
      · simp only [Fragment.notAfter, decide_eq_true_eq]
        omega
      · have later := after.1 other member
        simp only [Fragment.notAfter, decide_eq_true_eq] at later ⊢
        omega
    · rename_i notBefore
      refine List.pairwise_cons.mpr ⟨fun other member => ?_, ih after.2⟩
      rcases List.mem_cons.mp ((insertFragment_perm fragment rest).mem_iff.mp member)
        with rfl | member
      · simp only [Fragment.notAfter, decide_eq_true_eq]
        omega
      · exact after.1 other member

theorem filter_insertFragment {fragment : Fragment} {fragments : List Fragment}
    (sorted : fragments.Pairwise (Fragment.notAfter · ·)) (item : Fragment) :
    (insertFragment fragment fragments).filter (tied Fragment.notAfter item)
      = (fragments ++ [fragment]).filter (tied Fragment.notAfter item) := by
  induction fragments with
  | nil => rfl
  | cons next rest ih =>
    have after := List.pairwise_cons.mp sorted
    simp only [insertFragment]
    split
    · rename_i before
      by_cases ties : tied Fragment.notAfter item fragment
      · -- everything behind the new fragment is strictly later and tied with nothing before it
        have none : (next :: rest).filter (tied Fragment.notAfter item) = [] := by
          rw [List.filter_eq_nil_iff]
          intro other member
          have later : next.sourceOrder ≤ other.sourceOrder := by
            rcases List.mem_cons.mp member with rfl | member
            · exact Nat.le_refl _
            · simpa [Fragment.notAfter] using after.1 other member
          simp only [tied_notAfter, decide_eq_true_eq] at ties ⊢
          omega
        rw [List.filter_append, none, List.filter_cons_of_pos ties, none]
        simp [ties]
      · rw [List.filter_append, List.filter_cons_of_neg ties]
        simp [ties]
    · rw [List.cons_append, List.filter_cons, List.filter_cons, ih after.2]

theorem insertFragment_inSourceOrder (fragment : Fragment) (fragments : List Fragment) :
    insertFragment fragment (inSourceOrder fragments) = inSourceOrder (fragments ++ [fragment]) := by
  have sorted : (inSourceOrder fragments).Pairwise (Fragment.notAfter · ·) :=
    List.pairwise_mergeSort isRanking_notAfter.transitive isRanking_notAfter.total fragments
  apply eq_mergeSort_of_filter_tied isRanking_notAfter (insertFragment_sorted sorted)
  intro item
  rw [filter_insertFragment sorted, List.filter_append, List.filter_append, inSourceOrder,
    filter_mergeSort isRanking_notAfter _ _ fun _ _ => isRanking_notAfter.tied_trans]

def Ordered (groups : List FragmentGroup) : Prop :=
  groups.Pairwise fun one other => one.identifier.raw < other.identifier.raw

theorem Ordered.before_all {groups : List FragmentGroup} {next : FragmentGroup}
    (ordered : Ordered (next :: groups)) {identifier : Identifier}
    (before : identifier.raw < next.identifier.raw) :
    ∀ group ∈ next :: groups, identifier.raw < group.identifier.raw := by
  intro group member
  rcases List.mem_cons.mp member with rfl | member
  · exact before
  · exact UInt32.lt_trans before (List.rel_of_pairwise_cons ordered member)

theorem fragmentsOf_cons (next : FragmentGroup) (groups : List FragmentGroup)
    (identifier : Identifier) :
    fragmentsOf ⟨next :: groups⟩ identifier
      = if next.identifier = identifier then next.fragments else fragmentsOf ⟨groups⟩ identifier := by
  unfold fragmentsOf
  split <;> simp_all

theorem fragmentsOf_eq_nil {groups : List FragmentGroup} {identifier : Identifier}
    (absent : ∀ group ∈ groups, group.identifier ≠ identifier) :
    fragmentsOf ⟨groups⟩ identifier = [] := by
  have unknown : groups.find? (·.identifier = identifier) = none := by simpa using absent
  rw [fragmentsOf, unknown]
  rfl

theorem mem_insertGroup {fragment : Fragment} {groups : List FragmentGroup}
    (ordered : Ordered groups) {group : FragmentGroup} :
    group ∈ insertGroup fragment groups
      ↔ (group ∈ groups ∧ group.identifier ≠ fragment.identifier)
        ∨ group = ⟨fragment.identifier,
            insertFragment fragment (fragmentsOf ⟨groups⟩ fragment.identifier)⟩ := by
  induction groups with
  | nil => simp [insertGroup, fragmentsOf, insertFragment]
  | cons next rest ih =>
    simp only [insertGroup]
    split
    · rename_i before
      have others : ∀ other ∈ next :: rest, other.identifier ≠ fragment.identifier :=
        fun other member => (Identifier.ne_of_raw_lt (ordered.before_all before other member)).symm
      rw [fragmentsOf_eq_nil others, List.mem_cons, insertFragment]
      constructor
      · rintro (rfl | member)
        · exact .inr rfl
        · exact .inl ⟨member, others _ member⟩
      · rintro (⟨member, -⟩ | rfl)
        · exact .inr member
        · exact .inl rfl
    · rw [fragmentsOf_cons]
      split
      · rename_i same
        have others : ∀ other ∈ rest, other.identifier ≠ next.identifier := fun other member =>
          (Identifier.ne_of_raw_lt (List.rel_of_pairwise_cons ordered member)).symm
        rw [if_pos same.symm, same, List.mem_cons]
        constructor
        · rintro (rfl | member)
          · exact .inr rfl
          · exact .inl ⟨List.mem_cons_of_mem _ member, others _ member⟩
        · rintro (⟨member, differs⟩ | rfl)
          · rcases List.mem_cons.mp member with rfl | member
            · exact absurd rfl differs
            · exact .inr member
          · exact .inl rfl
      · rename_i differs
        have skipped : next.identifier ≠ fragment.identifier := fun same => differs same.symm
        rw [if_neg skipped, List.mem_cons, ih ordered.tail, List.mem_cons]
        constructor
        · rintro (rfl | ⟨member, other⟩ | new)
          · exact .inl ⟨.inl rfl, skipped⟩
          · exact .inl ⟨.inr member, other⟩
          · exact .inr new
        · rintro (⟨rfl | member, other⟩ | new)
          · exact .inl rfl
          · exact .inr (.inl ⟨member, other⟩)
          · exact .inr (.inr new)

theorem insertGroup_ordered {fragment : Fragment} {groups : List FragmentGroup}
    (ordered : Ordered groups) : Ordered (insertGroup fragment groups) := by
  induction groups with
  | nil => simp [insertGroup, Ordered]
  | cons next rest ih =>
    have after := List.pairwise_cons.mp ordered
    simp only [insertGroup]
    split
    · rename_i before
      exact List.pairwise_cons.mpr ⟨ordered.before_all before, ordered⟩
    · split
      · exact List.pairwise_cons.mpr ⟨after.1, after.2⟩
      · rename_i notBefore differs
        refine List.pairwise_cons.mpr ⟨fun other member => ?_, ih after.2⟩
        rcases (mem_insertGroup after.2).mp member with ⟨member, -⟩ | rfl
        · exact after.1 other member
        · have notSame : next.identifier.raw ≠ fragment.identifier.raw :=
            fun same => differs (congrArg Identifier.mk same.symm)
          exact UInt32.lt_of_le_of_ne (UInt32.not_lt.mp notBefore) notSame

structure Registers (corpus : Corpus) (fragments : List Fragment) : Prop where
  ordered : Ordered corpus.groups
  mem_groups : ∀ group : FragmentGroup, group ∈ corpus.groups
    ↔ group.fragments = fragmentsNamed fragments group.identifier ∧ group.fragments ≠ []

namespace Registers

variable {corpus : Corpus} {fragments : List Fragment}

theorem fragmentsOf_eq (registers : Registers corpus fragments) (identifier : Identifier) :
    corpus.fragmentsOf identifier = fragmentsNamed fragments identifier := by
  rw [Corpus.fragmentsOf]
  cases found : corpus.groups.find? (·.identifier = identifier) with
  | some group =>
    have same : group.identifier = identifier := by simpa using List.find?_some found
    have exact := ((registers.mem_groups group).mp (List.mem_of_find?_eq_some found)).1
    simpa [same] using exact
  | none =>
    have absent : ∀ group ∈ corpus.groups, group.identifier ≠ identifier := by
      simpa using found
    by_cases named : fragmentsNamed fragments identifier = []
    · exact named.symm
    · exact absurd rfl (absent ⟨identifier, fragmentsNamed fragments identifier⟩
        ((registers.mem_groups _).mpr ⟨rfl, named⟩))

theorem exists_fragment (registers : Registers corpus fragments) {group : FragmentGroup}
    (member : group ∈ corpus.groups) :
    ∃ fragment ∈ fragments, fragment.identifier = group.identifier := by
  obtain ⟨same, nonempty⟩ := (registers.mem_groups group).mp member
  obtain ⟨fragment, inside⟩ := List.exists_mem_of_ne_nil _ nonempty
  rw [same] at inside
  exact ⟨fragment, mem_fragmentsNamed.mp inside⟩

theorem mem_identifiers_iff (registers : Registers corpus fragments) {identifier : Identifier} :
    identifier ∈ corpus.identifiers ↔ ∃ fragment ∈ fragments, fragment.identifier = identifier := by
  rw [identifiers, List.mem_map]
  constructor
  · rintro ⟨group, member, rfl⟩
    exact registers.exists_fragment member
  · rintro ⟨fragment, member, rfl⟩
    have named : fragmentsNamed fragments fragment.identifier ≠ [] :=
      List.ne_nil_of_mem (mem_fragmentsNamed.mpr ⟨member, rfl⟩)
    exact ⟨⟨fragment.identifier, _⟩, (registers.mem_groups _).mpr ⟨rfl, named⟩, rfl⟩

theorem insert (registers : Registers corpus fragments) (fragment : Fragment) :
    Registers (corpus.insert fragment) (fragments ++ [fragment]) where
  ordered := insertGroup_ordered registers.ordered
  mem_groups group := by
    have named : fragmentsNamed (fragments ++ [fragment]) group.identifier
        = if group.identifier = fragment.identifier then
            insertFragment fragment (fragmentsNamed fragments group.identifier)
          else fragmentsNamed fragments group.identifier := by
      simp only [fragmentsNamed, List.filter_append]
      split
      · rename_i same
        rw [insertFragment_inSourceOrder]
        simp [same]
      · rename_i differs
        have other : ¬ fragment.identifier = group.identifier := fun same => differs same.symm
        simp [other]
    show group ∈ insertGroup fragment corpus.groups ↔ _
    rw [mem_insertGroup registers.ordered, registers.fragmentsOf_eq, named, registers.mem_groups]
    by_cases same : group.identifier = fragment.identifier
    · have nonempty :
          insertFragment fragment (fragmentsNamed fragments fragment.identifier) ≠ [] := by
        intro empty
        have perm := insertFragment_perm fragment (fragmentsNamed fragments fragment.identifier)
        rw [empty] at perm
        exact List.cons_ne_nil _ _ perm.nil_eq.symm
      cases group
      simp_all
    · cases group
      simp_all

theorem empty : Registers Corpus.empty [] where
  ordered := List.Pairwise.nil
  mem_groups group := by
    have unnamed : fragmentsNamed [] group.identifier = [] := by
      simp [fragmentsNamed, inSourceOrder]
    simp only [Corpus.empty, List.not_mem_nil, false_iff, unnamed]
    exact fun ⟨empty, nonempty⟩ => nonempty empty

end Registers

theorem registers_ofFragments (fragments : List Fragment) :
    Registers (ofFragments fragments) fragments := by
  suffices later : ∀ (corpus : Corpus) (before after : List Fragment),
      Registers corpus before → Registers (after.foldl Corpus.insert corpus) (before ++ after) by
    exact later .empty [] fragments .empty
  intro corpus before after registers
  induction after generalizing corpus before with
  | nil => simpa using registers
  | cons fragment after ih => simpa using ih _ _ (registers.insert fragment)

theorem Ordered.nodup {groups : List FragmentGroup} (ordered : Ordered groups) :
    (groups.map (·.identifier)).Nodup := by
  rw [List.nodup_iff_pairwise_ne, List.pairwise_map]
  exact ordered.imp Identifier.ne_of_raw_lt

end Corpus

end WebIdl
