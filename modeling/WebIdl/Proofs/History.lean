import WebIdl.Proofs.Shelving

namespace WebIdl

open Identifier (shardCount shardCapacity)

namespace Interner

inductive Call where
  | intern (spelling : String)
  | find (spelling : String)
  | lookup (identifier : Identifier)
deriving DecidableEq, Repr

def step (interner : Interner) : Call → Interner
  | .intern spelling =>
    match interner.intern spelling with
    | .ok (_, after) => after
    | .error _ => interner
  | .find _ | .lookup _ => interner

def after (interner : Interner) (calls : List Call) : Interner := calls.foldl step interner

def initial : List String := "" :: BuiltinType.all.map (·.spelling)

def Call.interned? : Call → Option String
  | .intern spelling => some spelling
  | .find _ | .lookup _ => none

def internedIn (calls : List Call) : List String := initial ++ calls.filterMap (·.interned?)

def metIn (calls : List Call) : List String :=
  firstOccurrences (initial ++ calls.filterMap (·.interned?))

/-- No shard is given more spellings than it has positions. -/
def Fits (calls : List Call) : Prop :=
  ∀ shard : Fin shardCount, (metIn calls).countP (shardOf · = shard) ≤ shardCapacity

instance (calls : List Call) : Decidable (Fits calls) := Nat.decidableForallFin _

theorem step_intern (interner : Interner) (spelling : String) :
    interner.step (.intern spelling) = interner.hold spelling := by
  cases outcome : interner.intern spelling with
  | ok result =>
    simp only [step, outcome]
    exact (intern_eq_ok_iff.mp outcome).1
  | error overflow =>
    simp only [step, outcome]
    by_cases fresh : spelling ∉ interner.shards.get (shardOf spelling)
      ∧ (interner.shards.get (shardOf spelling)).size < shardCapacity
    · have held : spelling ∈ (interner.hold spelling).shards.get (shardOf spelling) := by
        rw [shards_hold_of_fresh fresh]
        simp [Vector.get_eq_getElem]
      obtain ⟨identifier, found⟩ := Option.isSome_iff_exists.mp (isSome_find?_iff.mpr held)
      rw [intern_eq_ok_iff.mpr ⟨rfl, found⟩] at outcome
      cases outcome
    · exact (hold_of_not_fresh fresh).symm

theorem after_eq_holdAll (interner : Interner) (calls : List Call) :
    interner.after calls = interner.holdAll (calls.filterMap (·.interned?)) := by
  induction calls generalizing interner with
  | nil => rfl
  | cons call calls ih =>
    cases call with
    | intern spelling =>
      have first : interner.after (.intern spelling :: calls)
          = (interner.hold spelling).after calls := by
        rw [← step_intern]
        rfl
      rw [first, ih]
      rfl
    | find spelling => exact ih interner
    | lookup identifier => exact ih interner

theorem after_eq_holdAll_blank (calls : List Call) :
    new.after calls = blank.holdAll (internedIn calls) := by
  rw [after_eq_holdAll]
  exact List.foldl_append.symm

@[simp] theorem after_nil (interner : Interner) : interner.after [] = interner := rfl

theorem after_append (interner : Interner) (calls later : List Call) :
    interner.after (calls ++ later) = (interner.after calls).after later :=
  List.foldl_append

theorem find?_after {interner : Interner} {spelling : String} {identifier : Identifier}
    (found : interner.find? spelling = some identifier) (calls : List Call) :
    (interner.after calls).find? spelling = some identifier := by
  rw [after_eq_holdAll, find?_eq_some_iff]
  exact spelling?_holdAll (find?_eq_some_iff.mp found) _

theorem nodup_metIn (calls : List Call) : (metIn calls).Nodup := nodup_firstOccurrences _

theorem mem_metIn {calls : List Call} {spelling : String} :
    spelling ∈ metIn calls ↔ spelling ∈ initial ∨ .intern spelling ∈ calls := by
  have interned : (∃ call ∈ calls, call.interned? = some spelling) ↔ .intern spelling ∈ calls := by
    constructor
    · rintro ⟨call, member, same⟩
      cases call with
      | intern other => exact Option.some.inj same ▸ member
      | _ => nomatch same
    · exact fun member => ⟨_, member, rfl⟩
  rw [metIn, mem_firstOccurrences, List.mem_append, List.mem_filterMap, interned]

theorem metIn_append (calls later : List Call) :
    metIn (calls ++ later) = appendNew (metIn calls) (later.filterMap (·.interned?)) := by
  simp only [metIn, firstOccurrences, appendNew, List.filterMap_append, List.foldl_append]

theorem Fits.earlier {calls now : List Call} (fits : Fits calls) (start : now <+: calls) :
    Fits now := by
  obtain ⟨later, rfl⟩ := start
  intro shard
  have grows := (appendNew_extends (metIn now) (later.filterMap (·.interned?))).sublist.countP_le
    (p := (shardOf · = shard))
  rw [← metIn_append] at grows
  exact grows.trans (fits shard)

theorem shelves_after {calls : List Call} (fits : Fits calls) :
    (new.after calls).Shelves (metIn calls) := by
  rw [after_eq_holdAll_blank]
  exact shelves_blank.holdAll fits

/-- The handle was given for the spelling, when the interner was made or by one of the calls. -/
def HandedOut (calls : List Call) (spelling : String) (identifier : Identifier) : Prop :=
  spelling ∈ initial ∧ new.find? spelling = some identifier
    ∨ ∃ before, before ++ [.intern spelling] <+: calls
      ∧ (new.after before).intern spelling
        = .ok (identifier, new.after (before ++ [.intern spelling]))

structure StableHandles (calls : List Call) : Prop where
  interned : ∀ before spelling, before ++ [.intern spelling] <+: calls →
    ∃ identifier, (new.after before).intern spelling
      = .ok (identifier, new.after (before ++ [.intern spelling]))
  unchanged : new.after calls = new.after (calls.filter (·.interned?.isSome))
  known_iff : ∀ spelling, (∃ identifier, HandedOut calls spelling identifier)
    ↔ spelling ∈ initial ∨ .intern spelling ∈ calls
  same_iff : ∀ one other identifier identifier', HandedOut calls one identifier →
    HandedOut calls other identifier' → (identifier = identifier' ↔ one = other)
  find_iff : ∀ spelling identifier, (new.after calls).find? spelling = some identifier
    ↔ HandedOut calls spelling identifier
  lookup_iff : ∀ spelling identifier, (new.after calls).lookup identifier = .ok spelling
    ↔ HandedOut calls spelling identifier
  size : (new.after calls).size = (metIn calls).length
  empty_iff : ∀ spelling, HandedOut calls spelling .empty ↔ spelling = ""
  placed : ∀ spelling identifier, HandedOut calls spelling identifier →
    identifier.shard = shardOf spelling ∧ identifier.position.val
      = ((metIn calls).takeWhile (· ≠ spelling)).countP (shardOf · = shardOf spelling)

section
variable {calls : List Call}

theorem Fits.exists_identifier_iff (fits : Fits calls) {spelling : String} :
    (∃ identifier, (new.after calls).find? spelling = some identifier)
      ↔ spelling ∈ initial ∨ .intern spelling ∈ calls := by
  rw [(shelves_after fits).exists_identifier_iff, mem_metIn]

theorem Fits.intern_eq_ok (fits : Fits calls) {before : List Call} {spelling : String}
    (asked : before ++ [.intern spelling] <+: calls) :
    ∃ identifier, (new.after before).intern spelling
      = .ok (identifier, new.after (before ++ [.intern spelling])) := by
  have left : new.after (before ++ [.intern spelling]) = (new.after before).hold spelling := by
    rw [after_append, ← step_intern]
    rfl
  have met : spelling ∈ initial ∨ .intern spelling ∈ before ++ [.intern spelling] :=
    .inr (List.mem_append_right _ List.mem_cons_self)
  obtain ⟨identifier, found⟩ := (fits.earlier asked).exists_identifier_iff.mpr met
  exact ⟨identifier, intern_eq_ok_iff.mpr ⟨left, found⟩⟩

theorem HandedOut.find?_eq {spelling : String} {identifier : Identifier}
    (given : HandedOut calls spelling identifier) :
    (new.after calls).find? spelling = some identifier := by
  rcases given with ⟨-, found⟩ | ⟨before, ⟨later, rfl⟩, answered⟩
  · exact find?_after found calls
  · rw [after_append]
    exact find?_after (intern_eq_ok_iff.mp answered).2 later

theorem Fits.find?_eq_some_iff (fits : Fits calls) {spelling : String} {identifier : Identifier} :
    (new.after calls).find? spelling = some identifier ↔ HandedOut calls spelling identifier := by
  refine ⟨fun found => ?_, HandedOut.find?_eq⟩
  have given : ∃ other, HandedOut calls spelling other := by
    rcases fits.exists_identifier_iff.mp ⟨identifier, found⟩ with atFirst | called
    · have fitsAtFirst : Fits [] := fits.earlier ⟨calls, List.nil_append calls⟩
      obtain ⟨other, found⟩ := fitsAtFirst.exists_identifier_iff.mpr (.inl atFirst)
      rw [after_nil] at found
      exact ⟨other, .inl ⟨atFirst, found⟩⟩
    · obtain ⟨before, later, rfl⟩ := List.append_of_mem called
      have asked : before ++ [.intern spelling] <+: before ++ .intern spelling :: later :=
        ⟨later, by simp⟩
      obtain ⟨other, answered⟩ := fits.intern_eq_ok asked
      exact ⟨other, .inr ⟨before, asked, answered⟩⟩
  obtain ⟨other, given⟩ := given
  rw [Option.some.inj (found.symm.trans given.find?_eq)]
  exact given

end

theorem stableHandles_of_fits (calls : List Call) (fits : Fits calls) : StableHandles calls := by
  have shelves := shelves_after fits
  have spelled (spelling : String) (identifier : Identifier) :
      (new.after calls).spelling? identifier = some spelling
        ↔ HandedOut calls spelling identifier := by
    rw [← find?_eq_some_iff, fits.find?_eq_some_iff]
  constructor
  case interned => exact fun before spelling asked => fits.intern_eq_ok asked
  case unchanged =>
    have same : (calls.filter (·.interned?.isSome)).filterMap (·.interned?)
        = calls.filterMap (·.interned?) := by
      rw [List.filterMap_filter]
      refine List.filterMap_congr fun call _ => ?_
      cases call <;> rfl
    rw [after_eq_holdAll, after_eq_holdAll, same]
  case known_iff =>
    intro spelling
    simp only [← fits.find?_eq_some_iff, fits.exists_identifier_iff]
  case same_iff =>
    intro one other identifier identifier' given given'
    constructor
    · rintro rfl
      have same := (spelled one identifier).mpr given
      rw [(spelled other identifier).mpr given'] at same
      exact (Option.some.inj same).symm
    · rintro rfl
      exact Option.some.inj (given.find?_eq.symm.trans given'.find?_eq)
  case find_iff => exact fun spelling identifier => fits.find?_eq_some_iff
  case lookup_iff =>
    intro spelling identifier
    rw [lookup_eq_ok_iff, spelled]
  case size => exact shelves.size_eq (nodup_metIn calls)
  case empty_iff =>
    intro spelling
    have first : (new.after calls).spelling? .empty = some "" := by
      rw [after_eq_holdAll]
      exact spelling?_holdAll spelling?_empty_new _
    rw [← spelled, first, Option.some.injEq, eq_comm]
  case placed =>
    intro spelling identifier given
    exact shelves.place_eq (nodup_metIn calls) ((spelled spelling identifier).mpr given)

/-- Two spellings that share a shard, a builtin type, and questions about what is not held. -/
theorem stableHandles_sharedShard :
    Fits [.intern "EventTarget", .find "Node", .lookup ⟨7⟩, .intern "EventTargetList",
        .intern "any", .intern "EventTarget"]
      ∧ StableHandles [.intern "EventTarget", .find "Node", .lookup ⟨7⟩,
        .intern "EventTargetList", .intern "any", .intern "EventTarget"] := by
  have fits : Fits [.intern "EventTarget", .find "Node", .lookup ⟨7⟩, .intern "EventTargetList",
      .intern "any", .intern "EventTarget"] := by decide +kernel
  exact ⟨fits, stableHandles_of_fits _ fits⟩

end Interner

end WebIdl
