namespace WebIdl

/-- The handle of an interned spelling. Its four high bits name the shard that holds the spelling
    and its other bits the position there. -/
structure Identifier where
  raw : UInt32
deriving DecidableEq, Repr

namespace Identifier

abbrev shardCount : Nat := 16

abbrev shardCapacity : Nat := 0x10000000

def empty : Identifier := ⟨0⟩

instance : Inhabited Identifier := ⟨empty⟩

def isEmpty (identifier : Identifier) : Bool := identifier.raw == 0

def shard (identifier : Identifier) : Fin shardCount :=
  ⟨identifier.raw.toNat / shardCapacity,
    Nat.div_lt_of_lt_mul (by simpa [shardCount, shardCapacity] using identifier.raw.toNat_lt)⟩

def position (identifier : Identifier) : Fin shardCapacity :=
  ⟨identifier.raw.toNat % shardCapacity, Nat.mod_lt _ (by decide)⟩

def pack (shard : Fin shardCount) (position : Fin shardCapacity) : Identifier :=
  ⟨.ofNat (shard * shardCapacity + position)⟩

def pack? (shard position : Nat) : Option Identifier :=
  if bounds : shard < shardCount ∧ position < shardCapacity then
    some (pack ⟨shard, bounds.1⟩ ⟨position, bounds.2⟩)
  else
    none

def text (identifier : Identifier) : String :=
  s!"Identifier(shard={identifier.shard.val}, local={identifier.position.val})"

theorem raw_pack (shard : Fin shardCount) (position : Fin shardCapacity) :
    (pack shard position).raw.toNat = shard * shardCapacity + position := by
  have hs : shard.val < 16 := shard.isLt
  have hp : position.val < 268435456 := position.isLt
  simp only [pack, shardCapacity, UInt32.toNat_ofNat']
  omega

@[simp] theorem shard_pack (shard : Fin shardCount) (position : Fin shardCapacity) :
    (pack shard position).shard = shard := by
  have hp : position.val < 268435456 := position.isLt
  apply Fin.ext
  simp only [Identifier.shard, raw_pack, shardCapacity]
  omega

@[simp] theorem position_pack (shard : Fin shardCount) (position : Fin shardCapacity) :
    (pack shard position).position = position := by
  have hp : position.val < 268435456 := position.isLt
  apply Fin.ext
  simp only [Identifier.position, raw_pack, shardCapacity]
  omega

@[simp] theorem pack_shard_position (identifier : Identifier) :
    pack identifier.shard identifier.position = identifier := by
  have same : (pack identifier.shard identifier.position).raw.toNat = identifier.raw.toNat := by
    rw [raw_pack]
    exact Nat.div_add_mod' ..
  cases identifier
  exact congrArg Identifier.mk (UInt32.toNat_inj.mp same)

end Identifier

end WebIdl
