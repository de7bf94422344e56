import Mathlib
import WebIdl.Distinct
import WebIdl.Proofs.Interning

namespace WebIdl

open Identifier (shardCount shardCapacity)

namespace Interner

/-- Each shard holds those of the spellings that belong to it, in their order. -/
def Shelves (interner : Interner) (spellings : List String) : Prop :=
  ∀ shard : Fin shardCount, (interner.shards.get shard).toList = spellings.filter (shardOf · = shard)

theorem shelves_blank : blank.Shelves [] := by
  intro shard
  simp [blank, Vector.get_eq_getElem]

theorem Shelves.mem_iff {interner : Interner} {spellings : List String}
    (shelves : interner.Shelves spellings) {spelling : String} :
    spelling ∈ interner.shards.get (shardOf spelling) ↔ spelling ∈ spellings := by
  rw [← Array.mem_toList_iff, shelves]
  simp

theorem Shelves.hold {interner : Interner} {spellings : List String}
    (shelves : interner.Shelves spellings) {spelling : String}
    (room : (appendNew spellings [spelling]).countP (shardOf · = shardOf spelling) ≤ shardCapacity) :
    (interner.hold spelling).Shelves (appendNew spellings [spelling]) := by
  rw [appendNew_cons, appendNew_nil] at room ⊢
  by_cases met : spelling ∈ spellings
  · have kept : interner.hold spelling = interner :=
      hold_of_not_fresh fun fresh => fresh.1 (shelves.mem_iff.mpr met)
    rwa [if_pos met, kept]
  · rw [if_neg met] at room ⊢
    have size : (interner.shards.get (shardOf spelling)).size < shardCapacity := by
      have own := congrArg List.length (shelves (shardOf spelling))
      rw [Array.length_toList, ← List.countP_eq_length_filter] at own
      simp only [List.countP_append, List.countP_singleton, decide_true, if_true] at room
      exact Nat.lt_of_lt_of_le (Nat.lt_succ_of_le (Nat.le_of_eq own)) room
    have fresh := And.intro (fun held => met (shelves.mem_iff.mp held)) size
    intro shard
    rw [shards_hold_of_fresh fresh, Vector.get_eq_getElem, Vector.getElem_set]
    split
    · rename_i same
      obtain rfl : shardOf spelling = shard := Fin.ext same
      have own : (interner.shards.get (shardOf spelling)).toList
          = spellings.filter (shardOf · = shardOf spelling) := shelves (shardOf spelling)
      simp [own]
    · rename_i differs
      have other : ¬ shardOf spelling = shard := fun same => differs (congrArg Fin.val same)
      simpa [other, Vector.get_eq_getElem] using shelves shard

theorem Shelves.holdAll {interner : Interner} {kept : List String} (shelves : interner.Shelves kept)
    {spellings : List String}
    (room : ∀ shard : Fin shardCount,
      (appendNew kept spellings).countP (shardOf · = shard) ≤ shardCapacity) :
    (interner.holdAll spellings).Shelves (appendNew kept spellings) := by
  induction spellings generalizing interner kept with
  | nil => exact shelves
  | cons spelling spellings ih =>
    have first : appendNew kept (spelling :: spellings)
        = appendNew (appendNew kept [spelling]) spellings := rfl
    rw [first] at room ⊢
    refine ih (shelves.hold ?_) room
    exact ((appendNew_extends _ _).sublist.countP_le).trans (room _)

namespace Shelves

variable {interner : Interner} {spellings : List String}

theorem spelling?_eq (shelves : interner.Shelves spellings) (identifier : Identifier) :
    interner.spelling? identifier
      = (spellings.filter (shardOf · = identifier.shard))[identifier.position.val]? := by
  rw [spelling?, ← shelves, Array.getElem?_toList]
  rfl

theorem exists_identifier_iff (shelves : interner.Shelves spellings) {spelling : String} :
    (∃ identifier, interner.find? spelling = some identifier) ↔ spelling ∈ spellings := by
  rw [← Option.isSome_iff_exists, isSome_find?_iff, shelves.mem_iff]

/-- The handle tells the shard of its spelling and how many spellings came there before. -/
theorem place_eq (shelves : interner.Shelves spellings) (distinct : spellings.Nodup)
    {spelling : String} {identifier : Identifier}
    (held : interner.spelling? identifier = some spelling) :
    identifier.shard = shardOf spelling ∧ identifier.position.val
      = (spellings.takeWhile (· ≠ spelling)).countP (shardOf · = shardOf spelling) := by
  rw [shelves.spelling?_eq] at held
  obtain ⟨met, own⟩ := List.mem_filter.mp (List.mem_of_getElem? held)
  obtain own : shardOf spelling = identifier.shard := of_decide_eq_true own
  refine ⟨own.symm, ?_⟩
  rw [← own] at held
  have bound := (List.getElem?_eq_some_iff.mp held).1
  refine (List.getElem?_inj bound (distinct.filter _)).mp (held.trans ?_)
  obtain ⟨before, later, rfl⟩ := List.append_of_mem met
  have earlier : ∀ other ∈ before, decide (other ≠ spelling) := by
    intro other member
    have apart := (List.nodup_append.mp distinct).2.2 other member spelling List.mem_cons_self
    exact decide_eq_true apart
  rw [List.takeWhile_append_of_pos earlier, List.takeWhile_cons_of_neg (by simp),
    List.append_nil, List.countP_eq_length_filter, List.filter_append,
    List.getElem?_append_right (Nat.le_refl _)]
  simp

theorem size_eq (shelves : interner.Shelves spellings) (distinct : spellings.Nodup) :
    interner.size = spellings.length := by
  have each : interner.shards.toList
      = (List.finRange shardCount).map fun shard => interner.shards.get shard := by
    refine List.ext_getElem (by simp) fun index _ _ => ?_
    simp [Vector.get_eq_getElem]
  have all : interner.spellings
      = (List.finRange shardCount).flatMap fun shard => spellings.filter (shardOf · = shard) := by
    rw [Interner.spellings, each, List.flatMap_map]
    exact List.flatMap_congr fun shard _ => shelves shard
  have apart : ((List.finRange shardCount).flatMap
      fun shard => spellings.filter (shardOf · = shard)).Nodup := by
    refine List.nodup_flatMap.mpr ⟨fun shard _ => distinct.filter _, ?_⟩
    refine (List.nodup_finRange shardCount).imp fun {one other} differ spelling inOne inOther => ?_
    have first := of_decide_eq_true (List.mem_filter.mp inOne).2
    exact differ (first.symm.trans (of_decide_eq_true (List.mem_filter.mp inOther).2))
  have perm := (List.perm_ext_iff_of_nodup apart distinct).mpr fun spelling => by simp
  rw [size, all, perm.length_eq]

end Shelves

end Interner

end WebIdl
