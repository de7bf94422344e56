import Mathlib.Data.FinEnum
import Mathlib.Order.Interval.Finset.Nat
import WebIdl.SourceLocation

namespace WebIdl

namespace LineRange

def all : LineRange := ⟨0, 0xFFFFFFFF⟩

def lines (range : LineRange) : Finset UInt32 := {line | range.contains line}

def Covers (range part : LineRange) : Prop := ∀ line, part.contains line → range.contains line

structure IsLeastCover (range one other : LineRange) : Prop where
  covers_one : range.Covers one
  covers_other : range.Covers other
  least : ∀ wide : LineRange, wide.Covers one → wide.Covers other → wide.Covers range

/-- What is accepted as a range, what a location makes of two lines in either order, and what is
    merged of such ranges. -/
inductive Obtained : LineRange → Prop where
  | accepted {first last : UInt32} {range : LineRange} (ok : of? first last = .ok range) :
    Obtained range
  | located {file : String} {one other : UInt32} {location : SourceLocation}
      (member : location ∈ (Locations.within file one other).entries) :
    Obtained location.lines
  | merge {one other : LineRange} (first : Obtained one) (later : Obtained other) :
    Obtained (one.merge other)

theorem contains_iff {range : LineRange} {line : UInt32} :
    range.contains line ↔ range.first ≤ line ∧ line ≤ range.last := by
  simp [contains]

theorem toNat_first_merge (one other : LineRange) :
    (one.merge other).first.toNat = min one.first.toNat other.first.toNat := by
  simp only [merge, UInt32.le_iff_toNat_le]
  split <;> omega

theorem toNat_last_merge (one other : LineRange) :
    (one.merge other).last.toNat = max one.last.toNat other.last.toNat := by
  simp only [merge, UInt32.le_iff_toNat_le]
  split <;> omega

theorem of?_eq_ok_iff {first last : UInt32} {range : LineRange} :
    of? first last = .ok range ↔ first ≤ last ∧ range = ⟨first, last⟩ := by
  unfold of?
  split
  · rename_i reversed
    exact iff_of_false (fun ok => nomatch ok) fun ok => UInt32.not_le.mpr reversed ok.1
  · rename_i ordered
    rw [Except.ok.injEq, eq_comm (a := range)]
    exact ⟨fun same => ⟨UInt32.not_lt.mp ordered, same⟩, fun ok => ok.2⟩

theorem first_le_last_between (one other : UInt32) :
    (between one other).first ≤ (between one other).last := by
  unfold between
  split
  · rename_i reversed
    exact UInt32.le_of_lt reversed
  · rename_i ordered
    exact UInt32.not_lt.mp ordered

theorem first_le_last_merge {one other : LineRange} (ordered : one.first ≤ one.last) :
    (one.merge other).first ≤ (one.merge other).last := by
  rw [UInt32.le_iff_toNat_le] at ordered ⊢
  rw [toNat_first_merge, toNat_last_merge]
  omega

theorem Obtained.first_le_last {range : LineRange} (obtained : Obtained range) :
    range.first ≤ range.last := by
  induction obtained with
  | accepted ok =>
    obtain ⟨ordered, rfl⟩ := of?_eq_ok_iff.mp ok
    exact ordered
  | located member =>
    rw [List.mem_singleton.mp member]
    exact first_le_last_between _ _
  | merge _ _ ordered _ => exact first_le_last_merge ordered

theorem card_lines (range : LineRange) :
    range.lines.card = range.last.toNat + 1 - range.first.toNat := by
  have numbers : range.lines.image UInt32.toNat
      = Finset.Icc range.first.toNat range.last.toNat := by
    ext number
    simp only [lines, Finset.mem_image, Finset.mem_filter, Finset.mem_univ, true_and, contains_iff,
      Finset.mem_Icc]
    constructor
    · rintro ⟨line, inside, rfl⟩
      exact inside
    · intro inside
      have bound : number < 2 ^ 32 := Nat.lt_of_le_of_lt inside.2 range.last.toNat_lt
      have same : (UInt32.ofNat number).toNat = number := UInt32.toNat_ofNat_of_lt' bound
      refine ⟨.ofNat number, ?_, same⟩
      rw [UInt32.le_iff_toNat_le, UInt32.le_iff_toNat_le, same]
      exact inside
  have injective : Function.Injective UInt32.toNat := fun _ _ => UInt32.toNat_inj.mp
  rw [← Finset.card_image_of_injective range.lines injective, numbers, Nat.card_Icc]

theorem toNat_first_all : all.first.toNat = 0 := rfl

theorem toNat_last_all : all.last.toNat = 2 ^ 32 - 1 := rfl

theorem card_lines_eq_iff {range : LineRange} : range.lines.card = 2 ^ 32 ↔ range = all := by
  have bound : range.last.toNat < 2 ^ 32 := range.last.toNat_lt
  rw [card_lines]
  constructor
  · intro whole
    have first : range.first = all.first := UInt32.toNat_inj.mp (by rw [toNat_first_all]; omega)
    have last : range.last = all.last := UInt32.toNat_inj.mp (by rw [toNat_last_all]; omega)
    cases range
    exact congrArg₂ mk first last
  · intro same
    rw [same, toNat_first_all, toNat_last_all]
    omega

section
variable {range : LineRange} (ordered : range.first ≤ range.last)
include ordered

theorem toNat_sub_first : (range.last - range.first).toNat + 1 = range.lines.card := by
  have between := UInt32.le_iff_toNat_le.mp ordered
  rw [UInt32.toNat_sub_of_le _ _ ordered, card_lines]
  omega

theorem count?_eq_some_iff {count : UInt32} :
    range.count? = some count ↔ count.toNat = range.lines.card := by
  have room : count.toNat < 2 ^ 32 := count.toNat_lt
  rw [count?, if_neg (UInt32.not_lt.mpr ordered), ← toNat_sub_first ordered]
  split
  · rename_i whole
    have most : (range.last - range.first).toNat = 2 ^ 32 - 1 := congrArg UInt32.toNat whole
    exact iff_of_false (fun counted => nomatch counted) (by omega)
  · rename_i partly
    have less : (range.last - range.first).toNat ≠ 2 ^ 32 - 1 :=
      fun same => partly (UInt32.toNat_inj.mp same)
    have bound : (range.last - range.first).toNat < 2 ^ 32 := (range.last - range.first).toNat_lt
    rw [Option.some.injEq, ← UInt32.toNat_inj, UInt32.toNat_add, UInt32.toNat_one]
    omega

theorem count?_eq_none_iff : range.count? = none ↔ range = all := by
  have bound : (range.last - range.first).toNat < 2 ^ 32 := (range.last - range.first).toNat_lt
  have total := toNat_sub_first ordered
  rw [← card_lines_eq_iff, Option.eq_none_iff_forall_ne_some]
  constructor
  · intro uncounted
    have differs := uncounted (.ofNat range.lines.card)
    rw [ne_eq, count?_eq_some_iff ordered, UInt32.toNat_ofNat'] at differs
    omega
  · intro whole count counted
    have room : count.toNat < 2 ^ 32 := count.toNat_lt
    have same := (count?_eq_some_iff ordered).mp counted
    omega

end

theorem covers_iff {range part : LineRange} (ordered : part.first ≤ part.last) :
    range.Covers part ↔ range.first ≤ part.first ∧ part.last ≤ range.last := by
  constructor
  · intro covers
    have first := covers part.first (contains_iff.mpr ⟨UInt32.le_refl _, ordered⟩)
    have last := covers part.last (contains_iff.mpr ⟨ordered, UInt32.le_refl _⟩)
    exact ⟨(contains_iff.mp first).1, (contains_iff.mp last).2⟩
  · intro ends line inside
    have inside := contains_iff.mp inside
    exact contains_iff.mpr ⟨UInt32.le_trans ends.1 inside.1, UInt32.le_trans inside.2 ends.2⟩

section
variable {one other third : LineRange} (ordered : one.first ≤ one.last)
  (ordered' : other.first ≤ other.last)
include ordered ordered'

theorem covers_merge_iff {range : LineRange} :
    range.Covers (one.merge other) ↔ range.Covers one ∧ range.Covers other := by
  rw [covers_iff (first_le_last_merge ordered), covers_iff ordered, covers_iff ordered']
  simp only [UInt32.le_iff_toNat_le, toNat_first_merge, toNat_last_merge]
  omega

theorem isLeastCover_merge : IsLeastCover (one.merge other) one other := by
  have both := (covers_merge_iff ordered ordered').mp fun _ inside => inside
  refine ⟨both.1, both.2, ?_⟩
  intro wide first second
  exact (covers_merge_iff ordered ordered').mpr ⟨first, second⟩

theorem eq_of_covers_iff (same : ∀ range : LineRange, range.Covers one ↔ range.Covers other) :
    one = other := by
  have ends := (covers_iff ordered').mp ((same one).mp fun _ inside => inside)
  have ends' := (covers_iff ordered).mp ((same other).mpr fun _ inside => inside)
  cases one
  cases other
  exact congrArg₂ mk (UInt32.le_antisymm ends.1 ends'.1) (UInt32.le_antisymm ends'.2 ends.2)

theorem merge_comm : one.merge other = other.merge one := by
  apply eq_of_covers_iff (first_le_last_merge ordered) (first_le_last_merge ordered')
  intro range
  rw [covers_merge_iff ordered ordered', covers_merge_iff ordered' ordered, and_comm]

theorem merge_assoc (ordered'' : third.first ≤ third.last) :
    (one.merge other).merge third = one.merge (other.merge third) := by
  have left : (one.merge other).first ≤ (one.merge other).last := first_le_last_merge ordered
  have right : (other.merge third).first ≤ (other.merge third).last :=
    first_le_last_merge ordered'
  apply eq_of_covers_iff (first_le_last_merge left) (first_le_last_merge ordered)
  intro range
  rw [covers_merge_iff left ordered'', covers_merge_iff ordered ordered',
    covers_merge_iff ordered right, covers_merge_iff ordered' ordered'', and_assoc]

end

theorem merge_self {range : LineRange} (ordered : range.first ≤ range.last) :
    range.merge range = range := by
  apply eq_of_covers_iff (first_le_last_merge ordered) ordered
  intro wide
  rw [covers_merge_iff ordered ordered, and_self]

/-- A range has its number of lines as its count, unless those are all lines, and merging gives the
    least cover. -/
structure Measures (one other third : LineRange) : Prop where
  ordered : one.first ≤ one.last
  counted_iff : ∀ count, one.count? = some count ↔ count.toNat = one.lines.card
  uncounted_iff : one.count? = none ↔ one = all
  leastCover : IsLeastCover (one.merge other) one other
  commutative : one.merge other = other.merge one
  associative : (one.merge other).merge third = one.merge (other.merge third)
  idempotent : one.merge one = one

theorem measures_of_obtained {one other third : LineRange} (first : Obtained one)
    (second : Obtained other) (last : Obtained third) : Measures one other third where
  ordered := first.first_le_last
  counted_iff _ := count?_eq_some_iff first.first_le_last
  uncounted_iff := count?_eq_none_iff first.first_le_last
  leastCover := isLeastCover_merge first.first_le_last second.first_le_last
  commutative := merge_comm first.first_le_last second.first_le_last
  associative := merge_assoc first.first_le_last second.first_le_last last.first_le_last
  idempotent := merge_self first.first_le_last

theorem measures_grown :
    Obtained ((line 0).merge (line 0xFFFFFFFF)) ∧ Obtained ⟨4, 9⟩ ∧ Obtained ⟨2, 6⟩
      ∧ Measures ((line 0).merge (line 0xFFFFFFFF)) ⟨4, 9⟩ ⟨2, 6⟩ := by
  have first : Obtained (line 0) := .accepted (of?_eq_ok_iff.mpr ⟨by decide, rfl⟩)
  have last : Obtained (line 0xFFFFFFFF) := .accepted (of?_eq_ok_iff.mpr ⟨by decide, rfl⟩)
  have reversed : Obtained ⟨4, 9⟩ :=
    .located (List.mem_singleton_self (SourceLocation.mk "node.idl" (between 9 4)))
  have straight : Obtained ⟨2, 6⟩ := .accepted (of?_eq_ok_iff.mpr ⟨by decide, rfl⟩)
  exact ⟨first.merge last, reversed, straight,
    measures_of_obtained (first.merge last) reversed straight⟩

/-- The range of all lines is accepted, and two single lines merge into it, but a word cannot hold
    its count. -/
theorem not_counted_all : of? 0 0xFFFFFFFF = .ok all ∧ (line 0).merge (line 0xFFFFFFFF) = all
    ∧ all.lines.card = 2 ^ 32 ∧ all.count? = none :=
  ⟨rfl, rfl, card_lines_eq_iff.mpr rfl, rfl⟩

end LineRange

end WebIdl
