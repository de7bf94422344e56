namespace WebIdl

variable {α : Type} [DecidableEq α]

/-- `kept` followed by the items that it lacks, each once, in their order. -/
def appendNew (kept items : List α) : List α :=
  items.foldl (fun kept item => if item ∈ kept then kept else kept ++ [item]) kept

def firstOccurrences (items : List α) : List α := appendNew [] items

@[simp] theorem appendNew_nil (kept : List α) : appendNew kept [] = kept := rfl

theorem appendNew_cons (kept : List α) (item : α) (items : List α) :
    appendNew kept (item :: items)
      = appendNew (if item ∈ kept then kept else kept ++ [item]) items := rfl

theorem appendNew_append (kept items more : List α) :
    appendNew kept (items ++ more) = appendNew (appendNew kept items) more :=
  List.foldl_append

theorem appendNew_extends (kept items : List α) : kept <+: appendNew kept items := by
  induction items generalizing kept with
  | nil => exact List.prefix_refl kept
  | cons next rest ih =>
    rw [appendNew_cons]
    split
    · exact ih kept
    · exact (List.prefix_append kept [next]).trans (ih _)

theorem mem_appendNew {kept items : List α} {item : α} :
    item ∈ appendNew kept items ↔ item ∈ kept ∨ item ∈ items := by
  induction items generalizing kept with
  | nil => simp
  | cons next rest ih =>
    rw [appendNew_cons, ih]
    split <;> grind

theorem nodup_appendNew {kept : List α} (distinct : kept.Nodup) (items : List α) :
    (appendNew kept items).Nodup := by
  induction items generalizing kept with
  | nil => exact distinct
  | cons next rest ih =>
    rw [appendNew_cons]
    split
    · exact ih distinct
    · apply ih
      rw [List.nodup_append]
      grind

theorem appendNew_of_subset {kept items : List α} (known : ∀ item ∈ items, item ∈ kept) :
    appendNew kept items = kept := by
  induction items with
  | nil => rfl
  | cons next rest ih =>
    rw [appendNew_cons, if_pos (known next List.mem_cons_self)]
    exact ih fun item member => known item (List.mem_cons_of_mem next member)

theorem appendNew_eq_append_filter {kept items : List α} (distinct : items.Nodup) :
    appendNew kept items = kept ++ items.filter (· ∉ kept) := by
  induction items generalizing kept with
  | nil => exact (List.append_nil kept).symm
  | cons next rest ih =>
    obtain ⟨once, distinct⟩ := List.nodup_cons.mp distinct
    rw [appendNew_cons, List.filter_cons, ih distinct]
    by_cases known : next ∈ kept
    · simp [known]
    · have same : rest.filter (· ∉ kept ++ [next]) = rest.filter (· ∉ kept) := by
        refine List.filter_congr fun item member => ?_
        have other : item ≠ next := fun equal => once (equal ▸ member)
        simp [other]
      rw [if_neg known, same]
      simp [known]

/-- What some items lack of others is appended no matter whether they themselves are known. -/
theorem appendNew_appendNew (kept items more : List α) :
    appendNew kept (appendNew items more) = appendNew kept (items ++ more) := by
  induction more generalizing items with
  | nil => rw [appendNew_nil, List.append_nil]
  | cons next rest ih =>
    rw [appendNew_cons, ih]
    split
    · rename_i known
      have member : next ∈ appendNew kept items := mem_appendNew.mpr (.inr known)
      rw [appendNew_append, appendNew_append, appendNew_cons, if_pos member]
    · rw [← List.append_cons]

theorem mem_firstOccurrences {items : List α} {item : α} :
    item ∈ firstOccurrences items ↔ item ∈ items := by
  simp [firstOccurrences, mem_appendNew]

theorem nodup_firstOccurrences (items : List α) : (firstOccurrences items).Nodup :=
  nodup_appendNew List.nodup_nil items

def without (items : List α) (item : α) : List α := items.filter (· ≠ item)

theorem mem_without {items : List α} {item other : α} :
    other ∈ without items item ↔ other ∈ items ∧ other ≠ item := by
  simp [without]

theorem length_without_lt {items : List α} {item : α} (member : item ∈ items) :
    (without items item).length < items.length :=
  List.length_filter_lt_length_iff_exists.mpr ⟨item, member, by simp⟩

end WebIdl
