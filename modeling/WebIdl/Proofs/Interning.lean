import WebIdl.Interner

namespace WebIdl

open Identifier (shardCount shardCapacity)

namespace Interner

/-- The spelling of a handle. A handle that was never given out is spelled like nothing. -/
def spell (interner : Interner) (identifier : Identifier) : String :=
  (interner.spelling? identifier).getD ""

def Holds (interner : Interner) (identifier : Identifier) : Prop :=
  (interner.spelling? identifier).isSome

instance (interner : Interner) (identifier : Identifier) : Decidable (interner.Holds identifier) :=
  inferInstanceAs (Decidable (_ = true))

theorem Holds.spelling?_eq {interner : Interner} {identifier : Identifier}
    (holds : interner.Holds identifier) :
    interner.spelling? identifier = some (interner.spell identifier) := by
  obtain ⟨spelling, held⟩ := Option.isSome_iff_exists.mp holds
  rw [spell, held]
  rfl

theorem lookup_eq_ok_iff {interner : Interner} {identifier : Identifier} {spelling : String} :
    interner.lookup identifier = .ok spelling ↔ interner.spelling? identifier = some spelling := by
  unfold lookup
  cases interner.spelling? identifier <;> simp

theorem spelling?_inj {interner : Interner} {one other : Identifier} {spelling : String}
    (held : interner.spelling? one = some spelling)
    (held' : interner.spelling? other = some spelling) : one = other := by
  have first := find?_of_spelling? held
  rw [find?_of_spelling? held'] at first
  exact (Option.some.inj first).symm

theorem Holds.spell_inj {interner : Interner} {one other : Identifier} (holds : interner.Holds one)
    (holds' : interner.Holds other) (same : interner.spell one = interner.spell other) :
    one = other :=
  spelling?_inj holds.spelling?_eq (same ▸ holds'.spelling?_eq)

theorem shards_hold_of_fresh {interner : Interner} {spelling : String}
    (fresh : spelling ∉ interner.shards.get (shardOf spelling)
      ∧ (interner.shards.get (shardOf spelling)).size < shardCapacity) :
    (interner.hold spelling).shards = interner.shards.set (shardOf spelling)
      ((interner.shards.get (shardOf spelling)).push spelling) (shardOf spelling).isLt := by
  unfold hold
  exact congrArg shards (dif_pos fresh)

theorem hold_of_not_fresh {interner : Interner} {spelling : String}
    (fresh : ¬ (spelling ∉ interner.shards.get (shardOf spelling)
      ∧ (interner.shards.get (shardOf spelling)).size < shardCapacity)) :
    interner.hold spelling = interner := by
  unfold hold
  exact dif_neg fresh

theorem spelling?_hold {interner : Interner} {identifier : Identifier} {held : String}
    (before : interner.spelling? identifier = some held) (spelling : String) :
    (interner.hold spelling).spelling? identifier = some held := by
  by_cases fresh : spelling ∉ interner.shards.get (shardOf spelling)
      ∧ (interner.shards.get (shardOf spelling)).size < shardCapacity
  · have own : interner.shards.get (shardOf spelling) = interner.shards[shardOf spelling] := rfl
    obtain ⟨bound, same⟩ := Array.getElem?_eq_some_iff.mp before
    unfold spelling?
    rw [shards_hold_of_fresh fresh, Fin.getElem_fin, Vector.getElem_set]
    split
    · rename_i shard
      have inside : identifier.position.val < (interner.shards.get (shardOf spelling)).size := by
        simpa [own, shard] using bound
      rw [Array.getElem?_push_lt inside]
      simpa [own, shard] using same
    · exact before
  · rw [hold_of_not_fresh fresh]
    exact before

theorem spelling?_holdAll {interner : Interner} {identifier : Identifier} {held : String}
    (before : interner.spelling? identifier = some held) (spellings : List String) :
    (interner.holdAll spellings).spelling? identifier = some held := by
  induction spellings generalizing interner with
  | nil => exact before
  | cons spelling spellings ih => exact ih (spelling?_hold before spelling)

theorem spelling?_empty_new : new.spelling? .empty = some "" := by
  have shard : shardOf "" = 0 := by decide
  have own : blank.shards.get (shardOf "") = #[] := by
    have held : blank.shards.get (shardOf "") = blank.shards[shardOf ""] := rfl
    rw [held]
    simp [blank]
  have fresh : "" ∉ blank.shards.get (shardOf "")
      ∧ (blank.shards.get (shardOf "")).size < shardCapacity := by
    simp [own]
  have first : (blank.hold "").spelling? .empty = some "" := by
    unfold spelling?
    rw [shards_hold_of_fresh fresh, own, Fin.getElem_fin, Vector.getElem_set]
    simp [shard, Identifier.shard, Identifier.position, Identifier.empty]
  have later := spelling?_holdAll first (BuiltinType.all.map (·.spelling))
  simp only [holdAll] at later
  simp only [new, holdAll, List.foldl_cons]
  exact later

theorem isSome_find?_iff {interner : Interner} {spelling : String} :
    (interner.find? spelling).isSome ↔ spelling ∈ interner.shards.get (shardOf spelling) := by
  have own : interner.shards.get (shardOf spelling) = interner.shards[shardOf spelling] := rfl
  simp [find?, own]

theorem intern_eq_ok_iff {interner after : Interner} {spelling : String} {identifier : Identifier} :
    interner.intern spelling = .ok (identifier, after)
      ↔ after = interner.hold spelling ∧ after.find? spelling = some identifier := by
  unfold intern
  dsimp only
  cases found : (interner.hold spelling).find? spelling with
  | some given =>
    simp only [Except.ok.injEq, Prod.mk.injEq]
    grind
  | none =>
    simp only [reduceCtorEq, false_iff]
    rintro ⟨rfl, same⟩
    rw [found] at same
    nomatch same

end Interner

end WebIdl
