import WebIdl.BuiltinType
import WebIdl.Fault

namespace WebIdl

open Identifier (shardCount shardCapacity)

/-- The shard of a spelling depends on its first eight bytes only. -/
def shardOf (spelling : String) : Fin shardCount :=
  let hash := (spelling.toUTF8.data.toList.take 8).foldl
    (fun hash byte => hash * 31 + byte.toUInt32) (0 : UInt32)
  ⟨hash.toNat % shardCount, Nat.mod_lt _ (by decide)⟩

structure Interner where
  shards : Vector (Array String) shardCount
  placed : ∀ (shard : Fin shardCount), ∀ spelling ∈ shards[shard], shardOf spelling = shard
  distinct : ∀ (shard : Fin shardCount), shards[shard].toList.Nodup
  bounded : ∀ (shard : Fin shardCount), shards[shard].size ≤ shardCapacity

structure ShardOverflow where
  shard : Nat
  count : Nat
deriving DecidableEq, Repr

def ShardOverflow.message (overflow : ShardOverflow) : String :=
  s!"interner shard {overflow.shard} exceeded capacity: {overflow.count} strings, max is "
    ++ s!"{shardCapacity - 1}"

namespace Interner

def blank : Interner where
  shards := Vector.replicate shardCount #[]
  placed := by simp
  distinct := by simp
  bounded := by simp

/-- Holds `spelling` too, unless its shard is full. -/
def hold (interner : Interner) (spelling : String) : Interner :=
  let shard := shardOf spelling
  if fresh : spelling ∉ interner.shards[shard] ∧ interner.shards[shard].size < shardCapacity then
    { shards := interner.shards.set shard (interner.shards[shard].push spelling)
      placed := by
        intro other found member
        rw [Fin.getElem_fin, Vector.getElem_set] at member
        split at member
        · rename_i same
          rcases Array.mem_push.mp member with member | rfl
          · rw [interner.placed _ _ member]
            exact Fin.ext same
          · exact Fin.ext same
        · exact interner.placed other found member
      distinct := by
        intro other
        rw [Fin.getElem_fin, Vector.getElem_set]
        split
        · rw [Array.toList_push, List.nodup_append]
          refine ⟨interner.distinct shard, by simp, ?_⟩
          intro found member last hlast
          rw [List.mem_singleton.mp hlast]
          rintro rfl
          exact fresh.1 (Array.mem_toList_iff.mp member)
        · exact interner.distinct other
      bounded := by
        intro other
        rw [Fin.getElem_fin, Vector.getElem_set]
        split
        · rw [Array.size_push]
          exact fresh.2
        · exact interner.bounded other }
  else
    interner

def holdAll (interner : Interner) (spellings : List String) : Interner :=
  spellings.foldl hold interner

/-- An interner that has met no source yet holds the empty spelling and then the builtin types. -/
def new : Interner := blank.holdAll ("" :: BuiltinType.all.map (·.spelling))

instance : Inhabited Interner := ⟨new⟩

def find? (interner : Interner) (spelling : String) : Option Identifier :=
  let shard := shardOf spelling
  (interner.shards[shard].finIdxOf? spelling).map fun (place : Fin _) =>
    .pack shard ⟨place, Nat.lt_of_lt_of_le place.isLt (interner.bounded shard)⟩

def intern (interner : Interner) (spelling : String) :
    Except ShardOverflow (Identifier × Interner) :=
  let after := interner.hold spelling
  match after.find? spelling with
  | some identifier => .ok (identifier, after)
  | none => .error ⟨shardOf spelling, interner.shards[shardOf spelling].size⟩

def spelling? (interner : Interner) (identifier : Identifier) : Option String :=
  interner.shards[identifier.shard][identifier.position.val]?

def lookup (interner : Interner) (identifier : Identifier) : Except Fault String :=
  match interner.spelling? identifier with
  | some spelling => .ok spelling
  | none => .error (.unknownIdentifier identifier)

theorem spelling?_of_find? {interner : Interner} {spelling : String} {identifier : Identifier}
    (found : interner.find? spelling = some identifier) :
    interner.spelling? identifier = some spelling := by
  simp only [find?, Option.map_eq_some_iff] at found
  obtain ⟨place, found, rfl⟩ := found
  have held := Array.finIdxOf?_eq_some_iff.mp found
  simp only [spelling?, Identifier.position_pack]
  rw [Array.getElem?_eq_getElem (by simp)]
  simp_all

theorem find?_of_spelling? {interner : Interner} {spelling : String} {identifier : Identifier}
    (held : interner.spelling? identifier = some spelling) :
    interner.find? spelling = some identifier := by
  rw [← identifier.pack_shard_position] at held ⊢
  generalize identifier.shard = shard, identifier.position = position at held
  simp only [spelling?, Identifier.shard_pack, Identifier.position_pack] at held
  obtain ⟨bound, held⟩ := Array.getElem?_eq_some_iff.mp held
  obtain rfl : shardOf spelling = shard := interner.placed _ _ (held ▸ Array.getElem_mem bound)
  have first : (interner.shards[shardOf spelling]).finIdxOf? spelling
      = some ⟨position, bound⟩ := by
    refine Array.finIdxOf?_eq_some_iff.mpr ⟨held, ?_⟩
    intro earlier before same
    have distinct := interner.distinct (shardOf spelling)
    rw [List.nodup_iff_pairwise_ne, List.pairwise_iff_getElem] at distinct
    exact distinct earlier position (by simp) (by simpa using bound) before (by simp_all)
  simp only [find?, first, Option.map_some]

theorem find?_eq_some_iff {interner : Interner} {spelling : String} {identifier : Identifier} :
    interner.find? spelling = some identifier ↔ interner.spelling? identifier = some spelling :=
  ⟨spelling?_of_find?, find?_of_spelling?⟩

def spellings (interner : Interner) : List String := interner.shards.toList.flatMap Array.toList

def size (interner : Interner) : Nat := interner.spellings.length

def isEmpty (interner : Interner) : Bool := interner.size ≤ 1

end Interner

end WebIdl
