import WebIdl.Proofs.History
import WebIdl.Proofs.Packing
import WebIdl.Proofs.Registration

namespace WebIdl

open Identifier (shardCount shardCapacity)

namespace Interner

def shelf (interner : Interner) (shard : Fin shardCount) : List String :=
  (interner.shards.get shard).toList

theorem nodup_shelf (interner : Interner) (shard : Fin shardCount) :
    (interner.shelf shard).Nodup := interner.distinct shard

theorem length_shelf_le (interner : Interner) (shard : Fin shardCount) :
    (interner.shelf shard).length ≤ shardCapacity := interner.bounded shard

theorem shelf_hold (interner : Interner) (spelling : String) :
    (interner.hold spelling = interner ∧ (spelling ∈ interner.shelf (shardOf spelling)
        ∨ (interner.shelf (shardOf spelling)).length = shardCapacity))
      ∨ ∀ shard, (interner.hold spelling).shelf shard
        = interner.shelf shard ++ if shardOf spelling = shard then [spelling] else [] := by
  by_cases fresh : spelling ∉ interner.shards.get (shardOf spelling)
      ∧ (interner.shards.get (shardOf spelling)).size < shardCapacity
  · right
    intro shard
    unfold shelf
    rw [shards_hold_of_fresh fresh, Vector.get_eq_getElem, Vector.getElem_set]
    by_cases own : shardOf spelling = shard
    · rw [if_pos own, if_pos (congrArg Fin.val own), Array.toList_push, own]
    · rw [if_neg own, if_neg fun same => own (Fin.ext same), List.append_nil]
      rfl
  · refine .inl ⟨hold_of_not_fresh fresh, ?_⟩
    by_cases held : spelling ∈ interner.shards.get (shardOf spelling)
    · exact .inl (Array.mem_toList_iff.mpr held)
    · have full : ¬ (interner.shelf (shardOf spelling)).length < shardCapacity :=
        fun room => fresh ⟨held, room⟩
      have bound := interner.length_shelf_le (shardOf spelling)
      omega

theorem mem_shelf_hold (interner : Interner) (spelling : String) :
    spelling ∈ (interner.hold spelling).shelf (shardOf spelling)
      ∨ ((interner.hold spelling).shelf (shardOf spelling)).length = shardCapacity := by
  rcases interner.shelf_hold spelling with ⟨same, outcome⟩ | longer
  · rw [same]
    exact outcome
  · left
    simp [longer]

theorem shelf_prefix_holdAll (interner : Interner) (spellings : List String)
    (shard : Fin shardCount) :
    interner.shelf shard <+: (interner.holdAll spellings).shelf shard := by
  induction spellings generalizing interner with
  | nil => exact List.prefix_refl _
  | cons spelling spellings ih =>
    have first : interner.shelf shard <+: (interner.hold spelling).shelf shard := by
      rcases interner.shelf_hold spelling with ⟨same, -⟩ | longer
      · rw [same]
      · rw [longer]
        exact List.prefix_append _ _
    exact first.trans (ih (interner.hold spelling))

theorem mem_of_mem_shelf_holdAll {interner : Interner} {spellings : List String}
    {shard : Fin shardCount} {spelling : String}
    (held : spelling ∈ (interner.holdAll spellings).shelf shard) :
    spelling ∈ interner.shelf shard ∨ spelling ∈ spellings := by
  induction spellings generalizing interner with
  | nil => exact .inl held
  | cons next rest ih =>
    rcases ih held with now | later
    · rcases interner.shelf_hold next with ⟨same, -⟩ | longer
      · rw [same] at now
        exact .inl now
      · rw [longer] at now
        grind
    · exact .inr (List.mem_cons_of_mem next later)

theorem shelf_earlier_prefix_later {earlier spellings : List String} (start : earlier <+: spellings)
    (shard : Fin shardCount) :
    (blank.holdAll earlier).shelf shard <+: (blank.holdAll spellings).shelf shard := by
  obtain ⟨later, rfl⟩ := start
  have all : blank.holdAll (earlier ++ later) = (blank.holdAll earlier).holdAll later :=
    List.foldl_append
  rw [all]
  exact shelf_prefix_holdAll _ later shard

/-- What is held in the end was held from when it was first given, since a spelling that a full
    shard refused is never held. -/
theorem mem_shelf_earlier_iff {earlier spellings : List String} (start : earlier <+: spellings)
    {spelling : String} (held : spelling ∈ (blank.holdAll spellings).shelf (shardOf spelling)) :
    spelling ∈ (blank.holdAll earlier).shelf (shardOf spelling) ↔ spelling ∈ earlier := by
  constructor
  · intro now
    rcases mem_of_mem_shelf_holdAll now with atFirst | given
    · simp [shelf, blank, Vector.get_eq_getElem] at atFirst
    · exact given
  · intro given
    obtain ⟨before, after, rfl⟩ := List.append_of_mem given
    have first : before ++ [spelling] <+: before ++ spelling :: after := ⟨after, by simp⟩
    have kept := shelf_earlier_prefix_later first (shardOf spelling)
    have final := shelf_earlier_prefix_later (first.trans start) (shardOf spelling)
    have last : blank.holdAll (before ++ [spelling]) = (blank.holdAll before).hold spelling :=
      List.foldl_append
    rcases (blank.holdAll before).mem_shelf_hold spelling with placed | full
    · rw [← last] at placed
      exact kept.subset placed
    · rw [← last] at full
      have bound := (blank.holdAll spellings).length_shelf_le (shardOf spelling)
      have whole := final.eq_of_length (Nat.le_antisymm final.length_le (full ▸ bound))
      exact kept.subset (whole ▸ held)

section
variable {spellings : List String} {one other : String}

theorem idxOf_shelf_lt_iff (held : one ∈ (blank.holdAll spellings).shelf (shardOf one))
    (count : Nat) :
    ((blank.holdAll spellings).shelf (shardOf one)).idxOf one
        < ((blank.holdAll (spellings.take count)).shelf (shardOf one)).length
      ↔ spellings.idxOf one < count := by
  have start : spellings.take count <+: spellings := List.take_prefix count spellings
  have given : one ∈ spellings := (mem_shelf_earlier_iff (List.prefix_refl _) held).mp held
  have part := List.prefix_iff_eq_take.mp (shelf_earlier_prefix_later start (shardOf one))
  rw [← List.mem_take_iff_idxOf_lt given, ← mem_shelf_earlier_iff start held,
    ← List.mem_take_iff_idxOf_lt held, ← part]

theorem idxOf_shelf_lt_of_idxOf_lt (same : shardOf one = shardOf other)
    (held : one ∈ (blank.holdAll spellings).shelf (shardOf one))
    (held' : other ∈ (blank.holdAll spellings).shelf (shardOf other))
    (before : spellings.idxOf one < spellings.idxOf other) :
    ((blank.holdAll spellings).shelf (shardOf one)).idxOf one
      < ((blank.holdAll spellings).shelf (shardOf other)).idxOf other := by
  have inside := (idxOf_shelf_lt_iff held (spellings.idxOf other)).mpr before
  have outside := mt (idxOf_shelf_lt_iff held' (spellings.idxOf other)).mp (Nat.lt_irrefl _)
  rw [same] at inside ⊢
  omega

theorem idxOf_shelf_lt_idxOf_iff (same : shardOf one = shardOf other)
    (held : one ∈ (blank.holdAll spellings).shelf (shardOf one))
    (held' : other ∈ (blank.holdAll spellings).shelf (shardOf other)) :
    ((blank.holdAll spellings).shelf (shardOf one)).idxOf one
        < ((blank.holdAll spellings).shelf (shardOf other)).idxOf other
      ↔ spellings.idxOf one < spellings.idxOf other := by
  have given : one ∈ spellings := (mem_shelf_earlier_iff (List.prefix_refl _) held).mp held
  rcases Nat.lt_trichotomy (spellings.idxOf one) (spellings.idxOf other) with before | equal | after
  · exact iff_of_true (idxOf_shelf_lt_of_idxOf_lt same held held' before) before
  · obtain rfl := (List.idxOf_inj given).mp equal
    exact iff_of_false (Nat.lt_irrefl _) (Nat.lt_irrefl _)
  · have stands := idxOf_shelf_lt_of_idxOf_lt same.symm held' held after
    omega

end

theorem shardOf_eq {interner : Interner} {spelling : String} {identifier : Identifier}
    (held : interner.spelling? identifier = some spelling) : shardOf spelling = identifier.shard :=
  interner.placed _ _ (Array.mem_of_getElem? held)

theorem getElem?_shelf {interner : Interner} {spelling : String} {identifier : Identifier}
    (held : interner.spelling? identifier = some spelling) :
    (interner.shelf (shardOf spelling))[identifier.position.val]? = some spelling := by
  rw [shardOf_eq held, shelf, Array.getElem?_toList]
  exact held

theorem position_eq_idxOf {interner : Interner} {spelling : String} {identifier : Identifier}
    (held : interner.spelling? identifier = some spelling) :
    identifier.position.val = (interner.shelf (shardOf spelling)).idxOf spelling := by
  obtain ⟨bound, same⟩ := List.getElem?_eq_some_iff.mp (getElem?_shelf held)
  have found := (interner.nodup_shelf (shardOf spelling)).idxOf_getElem _ bound
  rw [same] at found
  exact found.symm

/-- In one shard handles are ordered by when their spellings were first interned, also if the shard
    was full before others were. -/
theorem HandedOut.raw_lt_iff {calls : List Call} {one other : String}
    {identifier identifier' : Identifier} (given : HandedOut calls one identifier)
    (given' : HandedOut calls other identifier') (same : identifier.shard = identifier'.shard) :
    identifier.raw < identifier'.raw
      ↔ (internedIn calls).idxOf one < (internedIn calls).idxOf other := by
  have spelled := spelling?_of_find? given.find?_eq
  have spelled' := spelling?_of_find? given'.find?_eq
  have sameShard : shardOf one = shardOf other := by
    rw [shardOf_eq spelled, shardOf_eq spelled', same]
  have held := List.mem_of_getElem? (getElem?_shelf spelled)
  have held' := List.mem_of_getElem? (getElem?_shelf spelled')
  rw [Identifier.raw_lt_iff_of_shard_eq same, Fin.lt_def, position_eq_idxOf spelled,
    position_eq_idxOf spelled']
  rw [after_eq_holdAll_blank] at held held' ⊢
  exact idxOf_shelf_lt_idxOf_iff sameShard held held'

end Interner

namespace Identifier

structure PacksInOrder (calls : List Interner.Call) (fragments : List Fragment) : Prop where
  packed : ∀ shard < 16, ∀ position ≤ 0x0FFFFFFF, ∃ identifier,
    pack? shard position = some identifier
      ∧ identifier.shard.val = shard ∧ identifier.position.val = position
  refused : ∀ shard position, ¬ (shard < 16 ∧ position ≤ 0x0FFFFFFF) →
    pack? shard position = none
  raw : ∀ word, (mk word).raw = word
  repacked : ∀ word, pack? (mk word).shard (mk word).position = some (mk word)
  layout : ∀ identifier : Identifier,
    identifier.shard.val = (identifier.raw >>> 28).toNat
      ∧ identifier.position.val = (identifier.raw &&& 0x0FFFFFFF).toNat
      ∧ identifier.raw
        = (UInt32.ofNat identifier.shard <<< 28) ||| UInt32.ofNat identifier.position
  compared : ∀ one other : Identifier, compare one.raw other.raw = one.order other
  identifiers : (Corpus.ofFragments fragments).identifiers.Pairwise (·.order · = .lt)
  groups : (Corpus.ofFragments fragments).groups.Pairwise
    fun one other => one.identifier.order other.identifier = .lt
  inTurn : ∀ one other identifier identifier', Interner.HandedOut calls one identifier →
    Interner.HandedOut calls other identifier' → identifier.shard = identifier'.shard →
      (identifier.raw < identifier'.raw
        ↔ (Interner.internedIn calls).idxOf one < (Interner.internedIn calls).idxOf other)

theorem packsInOrder (calls : List Interner.Call) (fragments : List Fragment) :
    PacksInOrder calls fragments := by
  have ordered := (Corpus.registers_ofFragments fragments).ordered
  have groups : (Corpus.ofFragments fragments).groups.Pairwise
      fun one other => one.identifier.order other.identifier = .lt :=
    ordered.imp order_eq_lt_iff.mpr
  constructor
  case packed =>
    intro shard inside position bound
    obtain ⟨identifier, packed⟩ := exists_pack?_iff.mpr ⟨inside, Nat.lt_succ_of_le bound⟩
    exact ⟨identifier, packed, pack?_eq_some_iff.mp packed⟩
  case refused =>
    intro shard position outside
    apply Option.eq_none_iff_forall_ne_some.mpr
    intro identifier packed
    have inside := exists_pack?_iff.mp ⟨identifier, packed⟩
    exact outside ⟨inside.1, Nat.le_of_lt_succ inside.2⟩
  case raw => exact fun _ => rfl
  case repacked => exact fun word => pack?_eq_some_iff.mpr ⟨rfl, rfl⟩
  case layout =>
    exact fun identifier =>
      ⟨identifier.shard_eq_shiftRight, identifier.position_eq_and, identifier.raw_eq_or⟩
  case compared => exact compare_raw
  case identifiers => exact List.pairwise_map.mpr groups
  case groups => exact groups
  case inTurn => exact fun _ _ _ _ given given' same => given.raw_lt_iff given' same

example : pack? 15 0x0FFFFFFF = some ⟨0xFFFFFFFF⟩ := by decide

end Identifier

end WebIdl
