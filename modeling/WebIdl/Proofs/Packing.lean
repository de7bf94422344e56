import WebIdl.Identifier

namespace WebIdl

namespace Identifier

theorem toNat_raw (identifier : Identifier) :
    identifier.raw.toNat = identifier.shard * shardCapacity + identifier.position :=
  (Nat.div_add_mod' _ _).symm

theorem pack?_eq_some_iff {shard position : Nat} {identifier : Identifier} :
    pack? shard position = some identifier
      ↔ identifier.shard.val = shard ∧ identifier.position.val = position := by
  unfold pack?
  constructor
  · intro packed
    split at packed
    · cases packed
      simp
    · cases packed
  · rintro ⟨rfl, rfl⟩
    rw [dif_pos ⟨identifier.shard.isLt, identifier.position.isLt⟩]
    exact congrArg some identifier.pack_shard_position

theorem exists_pack?_iff {shard position : Nat} :
    (∃ identifier, pack? shard position = some identifier)
      ↔ shard < shardCount ∧ position < shardCapacity := by
  rw [← Option.isSome_iff_exists, pack?]
  split <;> simp_all

theorem shard_eq_shiftRight (identifier : Identifier) :
    identifier.shard.val = (identifier.raw >>> 28).toNat := by
  rw [UInt32.toNat_shiftRight]
  exact (Nat.shiftRight_eq_div_pow identifier.raw.toNat 28).symm

theorem position_eq_and (identifier : Identifier) :
    identifier.position.val = (identifier.raw &&& 0x0FFFFFFF).toNat := by
  rw [UInt32.toNat_and]
  exact (Nat.and_two_pow_sub_one_eq_mod identifier.raw.toNat 28).symm

theorem raw_eq_or (identifier : Identifier) :
    identifier.raw
      = (UInt32.ofNat identifier.shard <<< 28) ||| UInt32.ofNat identifier.position := by
  have shard : identifier.shard.val < 16 := identifier.shard.isLt
  have position : identifier.position.val < 2 ^ 28 := identifier.position.isLt
  have high : (UInt32.ofNat identifier.shard <<< 28).toNat = identifier.shard.val <<< 28 := by
    have small : identifier.shard.val % 2 ^ 32 = identifier.shard.val := by omega
    have wide : identifier.shard.val * 2 ^ 28 % 2 ^ 32 = identifier.shard.val * 2 ^ 28 := by omega
    rw [UInt32.toNat_shiftLeft, UInt32.toNat_ofNat', small]
    show identifier.shard.val <<< 28 % 2 ^ 32 = identifier.shard.val <<< 28
    rw [Nat.shiftLeft_eq, wide]
  have low : (UInt32.ofNat identifier.position).toNat = identifier.position.val := by
    rw [UInt32.toNat_ofNat']
    omega
  apply UInt32.toNat_inj.mp
  rw [UInt32.toNat_or, high, low, ← Nat.shiftLeft_add_eq_or_of_lt position, Nat.shiftLeft_eq]
  exact identifier.toNat_raw

def order (one other : Identifier) : Ordering :=
  (compare one.shard.val other.shard.val).then (compare one.position.val other.position.val)

theorem toNat_raw_lt_of_shard_lt {one other : Identifier} (before : one.shard < other.shard) :
    one.raw.toNat < other.raw.toNat := by
  have bound : one.position.val < shardCapacity := one.position.isLt
  have next : one.shard.val * shardCapacity + shardCapacity
      ≤ other.shard.val * shardCapacity := by
    rw [← Nat.succ_mul]
    exact Nat.mul_le_mul_right shardCapacity before
  rw [one.toNat_raw, other.toNat_raw]
  omega

theorem compare_toNat_raw_of_shard_eq {one other : Identifier} (same : one.shard = other.shard) :
    compare one.raw.toNat other.raw.toNat = compare one.position.val other.position.val := by
  simp only [Nat.compare_eq_ite_lt, toNat_raw, same, Nat.add_lt_add_iff_left]

/-- Comparing handles as words is comparing what is packed into them. -/
theorem compare_raw (one other : Identifier) : compare one.raw other.raw = one.order other := by
  have words : compare one.raw other.raw = compare one.raw.toNat other.raw.toNat := by
    show compareOfLessAndEq _ _ = compareOfLessAndEq _ _
    simp only [compareOfLessAndEq, UInt32.lt_iff_toNat_lt, ← UInt32.toNat_inj]
  rw [words, order]
  rcases Nat.lt_trichotomy one.shard.val other.shard.val with before | same | after
  · rw [Nat.compare_eq_lt.mpr (toNat_raw_lt_of_shard_lt before), Nat.compare_eq_lt.mpr before]
    rfl
  · rw [compare_toNat_raw_of_shard_eq (Fin.ext same), Nat.compare_eq_eq.mpr same]
    rfl
  · rw [Nat.compare_eq_gt.mpr (toNat_raw_lt_of_shard_lt after), Nat.compare_eq_gt.mpr after]
    rfl

theorem order_eq_lt_iff {one other : Identifier} :
    one.order other = .lt ↔ one.raw < other.raw := by
  rw [← compare_raw]
  exact Std.compare_eq_lt

theorem raw_lt_iff_of_shard_eq {one other : Identifier} (same : one.shard = other.shard) :
    one.raw < other.raw ↔ one.position < other.position := by
  rw [UInt32.lt_iff_toNat_lt, one.toNat_raw, other.toNat_raw, same, Nat.add_lt_add_iff_left,
    Fin.lt_def]

end Identifier

end WebIdl
