import WebIdl.Report

namespace WebIdl

structure IsRanking {α : Type} (le : α → α → Bool) : Prop where
  transitive : ∀ one other third, le one other → le other third → le one third
  total : ∀ one other, le one other || le other one

def tied {α : Type} (le : α → α → Bool) (one other : α) : Bool := le one other && le other one

section
variable {α : Type} {le : α → α → Bool}

theorem IsRanking.tied_self (ranking : IsRanking le) (item : α) : tied le item item := by
  simpa [tied] using ranking.total item item

theorem IsRanking.tied_trans (ranking : IsRanking le) {one other third : α}
    (first : tied le one other) (second : tied le one third) : le other third := by
  simp only [tied, Bool.and_eq_true] at first second
  exact ranking.transitive _ _ _ first.2 second.1

theorem filter_mergeSort (ranking : IsRanking le) (items : List α) (keep : α → Bool)
    (ties : ∀ one other, keep one → keep other → le one other) :
    (items.mergeSort le).filter keep = items.filter keep := by
  have sorted : (items.filter keep).Pairwise (le · ·) :=
    List.pairwise_filter.mpr (List.pairwise_of_forall fun one other h h' => ties one other h h')
  have inside : (items.filter keep).Sublist (items.mergeSort le) :=
    List.sublist_mergeSort ranking.transitive ranking.total sorted List.filter_sublist
  have kept := inside.filter keep
  rw [List.filter_filter] at kept
  simp only [Bool.and_self] at kept
  have same : (items.filter keep).length = ((items.mergeSort le).filter keep).length :=
    ((List.mergeSort_perm items le).filter keep).length_eq.symm
  exact (kept.eq_of_length same).symm

theorem head_eq_of_filter_tied (ranking : IsRanking le) {one other : α} {ones others : List α}
    (sorted : (one :: ones).Pairwise (le · ·)) (sorted' : (other :: others).Pairwise (le · ·))
    (same : ∀ item, (one :: ones).filter (tied le item) = (other :: others).filter (tied le item)) :
    one = other := by
  have reflexive := ranking.tied_self
  have below : ∀ item ∈ one :: ones, le one item := by
    intro item member
    rcases List.mem_cons.mp member with rfl | member
    · simpa [tied] using reflexive item
    · exact List.rel_of_pairwise_cons sorted member
  have below' : ∀ item ∈ other :: others, le other item := by
    intro item member
    rcases List.mem_cons.mp member with rfl | member
    · simpa [tied] using reflexive item
    · exact List.rel_of_pairwise_cons sorted' member
  have inOthers : one ∈ (other :: others).filter (tied le one) := by
    rw [← same one]
    simp [reflexive one]
  have inOnes : other ∈ (one :: ones).filter (tied le other) := by
    rw [same other]
    simp [reflexive other]
  have ties : tied le one other := by
    simp only [tied, Bool.and_eq_true]
    exact ⟨below _ (List.mem_filter.mp inOnes).1, below' _ (List.mem_filter.mp inOthers).1⟩
  have heads := same one
  rw [List.filter_cons_of_pos (reflexive one), List.filter_cons_of_pos ties] at heads
  exact (List.cons.inj heads).1

/-- Sorted lists that agree on the items tied with any one item are equal. -/
theorem eq_of_filter_tied (ranking : IsRanking le) {ones others : List α}
    (sorted : ones.Pairwise (le · ·)) (sorted' : others.Pairwise (le · ·))
    (same : ∀ item, ones.filter (tied le item) = others.filter (tied le item)) :
    ones = others := by
  induction ones generalizing others with
  | nil =>
    cases others with
    | nil => rfl
    | cons other others =>
      have absent := same other
      simp [ranking.tied_self other] at absent
  | cons one ones ih =>
    cases others with
    | nil =>
      have absent := same one
      simp [ranking.tied_self one] at absent
    | cons other others =>
      obtain rfl := head_eq_of_filter_tied ranking sorted sorted' same
      have rest : ones = others := by
        apply ih sorted.tail sorted'.tail
        intro item
        have whole := same item
        simp only [List.filter_cons] at whole
        split at whole
        · exact (List.cons.inj whole).2
        · exact whole
      rw [rest]

theorem eq_mergeSort_of_filter_tied (ranking : IsRanking le) {sorted items : List α}
    (pairwise : sorted.Pairwise (le · ·))
    (same : ∀ item, sorted.filter (tied le item) = items.filter (tied le item)) :
    sorted = items.mergeSort le := by
  apply eq_of_filter_tied ranking pairwise
    (List.pairwise_mergeSort ranking.transitive ranking.total items)
  intro item
  rw [same, filter_mergeSort ranking items _ fun _ _ => ranking.tied_trans]

theorem mergeSort_eq_of_filter_tied (ranking : IsRanking le) {items items' : List α}
    (same : ∀ item, items.filter (tied le item) = items'.filter (tied le item)) :
    items.mergeSort le = items'.mergeSort le := by
  apply eq_mergeSort_of_filter_tied ranking
    (List.pairwise_mergeSort ranking.transitive ranking.total items)
  intro item
  rw [filter_mergeSort ranking items _ fun _ _ => ranking.tied_trans, same]

theorem length_eq_of_filter_tied (ranking : IsRanking le) {items items' : List α}
    (same : ∀ item, items.filter (tied le item) = items'.filter (tied le item)) :
    items.length = items'.length := by
  have sorted := congrArg List.length (mergeSort_eq_of_filter_tied ranking same)
  rwa [List.length_mergeSort, List.length_mergeSort] at sorted

theorem mergeSort_eq_of_perm (ranking : IsRanking le) {items items' : List α}
    (perm : items.Perm items')
    (untied : ∀ one ∈ items, ∀ other ∈ items, tied le one other → one = other) :
    items.mergeSort le = items'.mergeSort le := by
  have sorted := List.pairwise_mergeSort ranking.transitive ranking.total items
  have sorted' := List.pairwise_mergeSort ranking.transitive ranking.total items'
  have perms := (List.mergeSort_perm items le).trans (perm.trans (List.mergeSort_perm items' le).symm)
  refine List.Perm.eq_of_pairwise ?_ sorted sorted' perms
  intro one other inOnes inOthers before after
  apply untied one (List.mem_mergeSort.mp inOnes) other
    (perm.mem_iff.mpr (List.mem_mergeSort.mp inOthers))
  simp [tied, before, after]

end

theorem isRanking_names {α : Type} (name : α → String) :
    IsRanking fun one other => decide (name one ≤ name other) where
  transitive one other third first second := by
    simp only [decide_eq_true_eq] at first second ⊢
    exact String.le_trans first second
  total one other := by
    simpa using String.le_total (name one) (name other)

theorem tied_names {α : Type} (name : α → String) (one other : α) :
    tied (fun one other => decide (name one ≤ name other)) one other ↔ name one = name other := by
  simp only [tied, Bool.and_eq_true, decide_eq_true_eq]
  exact ⟨fun ⟨before, after⟩ => String.le_antisymm before after,
    fun same => same ▸ ⟨String.le_refl _, String.le_refl _⟩⟩

theorem tied_precedes (one other : Problem) :
    tied Report.precedes one other ↔ one.name = other.name ∧ one.code.number = other.code.number := by
  simp only [tied, Report.precedes, Bool.and_eq_true, Bool.or_eq_true, decide_eq_true_eq,
    beq_iff_eq]
  constructor
  · rintro ⟨before | ⟨same, first⟩, after | ⟨same', second⟩⟩
    · exact absurd after (String.lt_asymm before)
    · exact absurd (same' ▸ before) (String.lt_irrefl _)
    · exact absurd (same ▸ after) (String.lt_irrefl _)
    · exact ⟨same, Nat.le_antisymm first second⟩
  · rintro ⟨same, code⟩
    exact ⟨.inr ⟨same, Nat.le_of_eq code⟩, .inr ⟨same.symm, Nat.le_of_eq code.symm⟩⟩

theorem isRanking_precedes : IsRanking Report.precedes where
  transitive one other third first second := by
    simp only [Report.precedes, Bool.and_eq_true, Bool.or_eq_true, decide_eq_true_eq,
      beq_iff_eq] at first second ⊢
    rcases first with before | ⟨same, first⟩ <;> rcases second with after | ⟨same', second⟩
    · exact .inl (String.lt_trans before after)
    · exact .inl (same' ▸ before)
    · exact .inl (same ▸ after)
    · exact .inr ⟨same.trans same', Nat.le_trans first second⟩
  total one other := by
    simp only [Report.precedes, Bool.and_eq_true, Bool.or_eq_true, decide_eq_true_eq, beq_iff_eq]
    by_cases same : one.name = other.name
    · rcases Nat.le_total one.code.number other.code.number with first | second
      · exact .inl (.inr ⟨same, first⟩)
      · exact .inr (.inr ⟨same.symm, second⟩)
    · rcases String.le_total one.name other.name with before | after
      · exact .inl (.inl (Std.lt_of_le_of_ne before same))
      · exact .inr (.inl (Std.lt_of_le_of_ne after fun equal => same equal.symm))

end WebIdl
