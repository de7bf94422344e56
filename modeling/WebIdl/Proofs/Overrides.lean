import Mathlib.Data.List.Chain
import WebIdl.Proofs.MergeConflicts
import WebIdl.Proofs.Turns

namespace WebIdl

namespace GeneratorHints

def Field.Value : Field → Type
  | .nameOverride | .headerPath => String
  | .skipEmission => Bool

instance (field : Field) : DecidableEq field.Value :=
  match field with
  | .nameOverride | .headerPath => inferInstanceAs (DecidableEq String)
  | .skipEmission => inferInstanceAs (DecidableEq Bool)

def value? (hints : GeneratorHints) : (field : Field) → Option field.Value
  | .nameOverride => hints.nameOverride
  | .headerPath => hints.headerPath
  | .skipEmission => hints.skipEmission

def Field.valueText : (field : Field) → field.Value → String
  | .nameOverride => fun name : String => name
  | .headerPath => fun path : String => path
  | .skipEmission => fun skip : Bool => if skip then "true" else "false"

theorem Field.valueText_injective {field : Field} {value value' : field.Value}
    (same : field.valueText value = field.valueText value') : value = value' := by
  cases field with
  | nameOverride | headerPath => exact same
  | skipEmission =>
    have texts : ∀ skip skip' : Bool, (if skip then "true" else "false")
        = (if skip' then "true" else "false") → skip = skip' := by decide
    exact texts value value' same

theorem get?_eq (hints : GeneratorHints) (field : Field) :
    hints.get? field = (hints.value? field).map field.valueText := by
  cases field with
  | nameOverride | headerPath => exact Option.map_id'.symm
  | skipEmission => rfl

theorem value?_update (hints later : GeneratorHints) (field : Field) :
    (hints.update later).value? field = (later.value? field).or (hints.value? field) := by
  cases field <;> rfl

end GeneratorHints

open GeneratorHints (Field Override)

def lastValue? (field : Field) (together : List Fragment) : Option field.Value :=
  (together.filterMap (·.hints.value? field)).getLast?

/-- The entry for a fragment that sets a hint otherwise than the nearest earlier one to set it. -/
def Fragment.override? (earlier : List Fragment) (fragment : Fragment) (field : Field) :
    Option Override :=
  (lastValue? field earlier).bind fun previous => (fragment.hints.value? field).bind fun current =>
    if previous = current then none
    else some ⟨field, field.valueText previous, field.valueText current, fragment.locations⟩

def Fragment.overrides (earlier : List Fragment) (fragment : Fragment) : List Override :=
  [Field.nameOverride, .headerPath, .skipEmission].filterMap (fragment.override? earlier)

def Declaration.overridesOf (declaration : Declaration) (field : Field) : List Override :=
  declaration.overrides.filter (·.field = field)

def AgreeOn (together : List Fragment) (field : Field) : Prop :=
  ∀ one ∈ together, ∀ other ∈ together, ∀ value ∈ one.hints.value? field,
    ∀ value' ∈ other.hints.value? field, value = value'

structure Declaration.Heeds (declaration : Declaration) (together : List Fragment) : Prop where
  last : ∀ field, declaration.hints.value? field = lastValue? field together
  log : declaration.overrides = inTurn Fragment.overrides [] together
  chained : ∀ field, (declaration.overridesOf field).IsChain fun one next =>
    next.previous = one.current
  final : ∀ field, ∀ override ∈ (declaration.overridesOf field).getLast?,
    declaration.hints.get? field = some override.current
  quiet : ∀ field, declaration.overridesOf field = [] ↔ AgreeOn together field

theorem lastValue?_concat (field : Field) (together : List Fragment) (next : Fragment) :
    lastValue? field (together ++ [next])
      = (next.hints.value? field).or (lastValue? field together) := by
  unfold lastValue?
  rw [List.filterMap_append, List.getLast?_append]
  cases stated : next.hints.value? field <;> simp [stated]

theorem exists_fragment_of_lastValue? {field : Field} {together : List Fragment}
    {value : field.Value} (last : lastValue? field together = some value) :
    ∃ fragment ∈ together, fragment.hints.value? field = some value :=
  List.mem_filterMap.mp (List.mem_of_getLast? last)

theorem isSome_lastValue? {field : Field} {together : List Fragment} {fragment : Fragment}
    {value : field.Value} (member : fragment ∈ together)
    (stated : fragment.hints.value? field = some value) :
    ∃ last, lastValue? field together = some last := by
  have inside : value ∈ together.filterMap (·.hints.value? field) :=
    List.mem_filterMap.mpr ⟨fragment, member, stated⟩
  exact ⟨_, List.getLast?_eq_some_getLast (List.ne_nil_of_mem inside)⟩

namespace Fragment

theorem override?_eq_some {earlier : List Fragment} {fragment : Fragment} {field : Field}
    {override : Override} (found : fragment.override? earlier field = some override) :
    ∃ previous current, lastValue? field earlier = some previous
      ∧ fragment.hints.value? field = some current ∧ previous ≠ current
      ∧ override = ⟨field, field.valueText previous, field.valueText current,
        fragment.locations⟩ := by
  obtain ⟨previous, last, found⟩ := Option.bind_eq_some_iff.mp found
  obtain ⟨current, stated, found⟩ := Option.bind_eq_some_iff.mp found
  obtain ⟨differ, same⟩ := Option.ite_none_left_eq_some.mp found
  exact ⟨previous, current, last, stated, differ, (Option.some.inj same).symm⟩

theorem filter_overrides (earlier : List Fragment) (fragment : Fragment) (field : Field) :
    (fragment.overrides earlier).filter (·.field = field)
      = (fragment.override? earlier field).toList := by
  have own (other : Field) : (fragment.override? earlier other).filter (·.field = field)
      = if other = field then fragment.override? earlier field else none := by
    by_cases same : other = field
    · subst same
      rw [if_pos rfl]
      cases found : fragment.override? earlier other with
      | none => rfl
      | some override =>
        obtain ⟨previous, current, -, -, -, rfl⟩ := override?_eq_some found
        exact Option.filter_some_pos (decide_eq_true rfl)
    · rw [if_neg same]
      cases found : fragment.override? earlier other with
      | none => rfl
      | some override =>
        obtain ⟨previous, current, -, -, -, rfl⟩ := override?_eq_some found
        exact Option.filter_some_neg (decide_eq_false same)
  unfold overrides
  rw [List.filter_filterMap]
  simp only [own]
  cases field <;> simp [List.filterMap_cons] <;>
    cases fragment.override? earlier _ <;> rfl

theorem overrides_update {hints : GeneratorHints} {earlier : List Fragment}
    (follows : ∀ field, hints.value? field = lastValue? field earlier) (fragment : Fragment) :
    hints.overrides fragment.hints fragment.locations = fragment.overrides earlier := by
  unfold GeneratorHints.overrides overrides
  apply List.filterMap_congr
  intro field _
  rw [GeneratorHints.get?_eq, GeneratorHints.get?_eq, follows, override?]
  cases lastValue? field earlier with
  | none => rfl
  | some previous =>
    cases fragment.hints.value? field with
    | none => rfl
    | some current =>
      by_cases same : previous = current
      · simp [same]
      · have texts : field.valueText previous ≠ field.valueText current :=
          fun equal => same (Field.valueText_injective equal)
        simp [same, texts]

theorem override?_eq_none_iff {earlier : List Fragment} {fragment : Fragment} {field : Field} :
    fragment.override? earlier field = none ↔
      ∀ previous ∈ lastValue? field earlier, ∀ current ∈ fragment.hints.value? field,
        previous = current := by
  unfold override?
  cases lastValue? field earlier <;> cases fragment.hints.value? field <;> simp

end Fragment

def overridesOf (field : Field) (together : List Fragment) : List Override :=
  inTurn (fun earlier fragment => (fragment.override? earlier field).toList) [] together

theorem overridesOf_concat (field : Field) (together : List Fragment) (next : Fragment) :
    overridesOf field (together ++ [next])
      = overridesOf field together ++ (next.override? together field).toList :=
  inTurn_concat _ together next

/-- Each entry replaces what the one before it set, and the last entry set what is set last. -/
theorem isChain_overridesOf (field : Field) (together : List Fragment) :
    (overridesOf field together).IsChain (fun one next => next.previous = one.current)
      ∧ ∀ override ∈ (overridesOf field together).getLast?,
        (lastValue? field together).map field.valueText = some override.current := by
  induction together using List.reverseRecOn with
  | nil => exact ⟨.nil, nofun⟩
  | append_singleton together next ih =>
    obtain ⟨chained, final⟩ := ih
    rw [overridesOf_concat, lastValue?_concat]
    cases found : next.override? together field with
    | some override =>
      obtain ⟨previous, current, last, stated, -, rfl⟩ := Fragment.override?_eq_some found
      rw [stated]
      constructor
      · apply List.isChain_append.mpr
        refine ⟨chained, .singleton _, fun earlier isLast replaced isNext => ?_⟩
        obtain rfl : _ = replaced := Option.some.inj isNext
        have text := final earlier isLast
        rw [last] at text
        exact Option.some.inj text
      · intro override isLast
        simp only [Option.toList_some, List.getLast?_append, List.getLast?_singleton,
          Option.some_or, Option.mem_some_iff] at isLast
        rw [← isLast]
        rfl
    | none =>
      rw [Option.toList_none, List.append_nil]
      refine ⟨chained, fun override isLast => ?_⟩
      have text := final override isLast
      obtain ⟨previous, last, -⟩ := Option.map_eq_some_iff.mp text
      cases stated : next.hints.value? field with
      | none => exact text
      | some current =>
        rw [← Fragment.override?_eq_none_iff.mp found previous last current stated,
          Option.some_or, ← last]
        exact text

theorem lastValue?_of_agree {field : Field} {together : List Fragment}
    (agree : AgreeOn together field) {fragment : Fragment} (member : fragment ∈ together)
    {value : field.Value} (stated : fragment.hints.value? field = some value) :
    lastValue? field together = some value := by
  obtain ⟨last, found⟩ := isSome_lastValue? member stated
  obtain ⟨other, inside, same⟩ := exists_fragment_of_lastValue? found
  rw [found, agree other inside fragment member last same value stated]

theorem overridesOf_eq_nil_iff (field : Field) (together : List Fragment) :
    overridesOf field together = [] ↔ AgreeOn together field := by
  induction together using List.reverseRecOn with
  | nil => exact iff_of_true rfl nofun
  | append_singleton together next ih =>
    rw [overridesOf_concat, List.append_eq_nil_iff, ih, Option.toList_eq_nil_iff,
      Fragment.override?_eq_none_iff]
    constructor
    · intro ⟨agree, unchanged⟩ one member other member' value stated value' stated'
      rcases List.mem_append.mp member with early | late <;>
        rcases List.mem_append.mp member' with early' | late'
      · exact agree one early other early' value stated value' stated'
      · rw [List.mem_singleton.mp late'] at stated'
        exact unchanged value (lastValue?_of_agree agree early stated) value' stated'
      · rw [List.mem_singleton.mp late] at stated
        exact (unchanged value' (lastValue?_of_agree agree early' stated') value stated).symm
      · rw [List.mem_singleton.mp late] at stated
        rw [List.mem_singleton.mp late', stated] at stated'
        exact Option.some.inj stated'
    · intro agree
      constructor
      · intro one member other member'
        exact agree one (List.mem_append_left _ member) other (List.mem_append_left _ member')
      · intro previous last current stated
        obtain ⟨one, member, same⟩ := exists_fragment_of_lastValue? last
        exact agree one (List.mem_append_left _ member) next
          (List.mem_append_right _ (List.mem_singleton_self _)) previous same current stated

namespace GeneratorHints

theorem updateAll_spec {hints : GeneratorHints} {earlier : List Fragment}
    (follows : ∀ field, hints.value? field = lastValue? field earlier) (later : List Fragment) :
    (∀ field, (hints.updateAll (later.map (·.sourcedHints))).1.value? field
        = lastValue? field (earlier ++ later))
      ∧ (hints.updateAll (later.map (·.sourcedHints))).2
        = inTurn (fun before fragment => fragment.overrides before) earlier later := by
  induction later generalizing hints earlier with
  | nil =>
    rw [List.append_nil]
    exact ⟨follows, rfl⟩
  | cons next rest ih =>
    have updated (field : Field) : (hints.update next.hints).value? field
        = lastValue? field (earlier ++ [next]) := by
      rw [value?_update, lastValue?_concat, follows]
    have logged := next.overrides_update follows
    obtain ⟨last, log⟩ := ih updated
    rw [← List.append_cons] at last
    refine ⟨last, ?_⟩
    rw [inTurn, ← log, ← logged]
    rfl

end GeneratorHints

theorem Fragments.heeds_definition (policy : AttributePolicy) (identifier : Identifier)
    (fragments : Fragments) :
    (fragments.definition policy identifier).declaration.Heeds fragments.toList := by
  have start (field : Field) : GeneratorHints.unset.value? field = lastValue? field [] := by
    cases field <;> rfl
  obtain ⟨last, log⟩ := GeneratorHints.updateAll_spec start fragments.toList
  have ofField (field : Field) :
      (fragments.definition policy identifier).declaration.overridesOf field
        = overridesOf field fragments.toList := by
    show (fragments.hints.2).filter (·.field = field) = _
    rw [hints, log, filter_inTurn]
    simp only [Fragment.filter_overrides]
    rfl
  exact {
    last
    log
    chained := fun field => by
      rw [ofField]
      exact (isChain_overridesOf field fragments.toList).1
    final := fun field override isLast => by
      rw [ofField] at isLast
      have set : (fragments.definition policy identifier).declaration.hints.value? field
          = lastValue? field fragments.toList := last field
      rw [GeneratorHints.get?_eq, set]
      exact (isChain_overridesOf field fragments.toList).2 override isLast
    quiet := fun field => by
      rw [ofField]
      exact overridesOf_eq_nil_iff field fragments.toList }

/-- A merged definition has the hints that its fragments set last and a faithful log of what they
    replaced. Updating hints is associative, and hints that are not set change nothing. -/
theorem FragmentGroup.heeds_of_merged {policy : AttributePolicy} {interner : Interner}
    {group : FragmentGroup} {definition : RawDefinition}
    (merged : group.merge? policy interner = .ok (some (.ok definition))) :
    definition.declaration.Heeds group.fragments
      ∧ ∀ hints later last : GeneratorHints,
        (hints.update later).update last = hints.update (later.update last)
          ∧ hints.update .unset = hints ∧ GeneratorHints.unset.update hints = hints := by
  have outcome := ((gives_merge? policy interner group).eq_of_ok merged).symm
  have isDefinition : group.definition? policy interner = some definition := by
    rw [definition?, outcome]
  obtain ⟨-, together, same, rfl⟩ := definition?_eq_some_iff.mp isDefinition
  have heeds := together.heeds_definition policy group.identifier
  rw [same] at heeds
  exact ⟨heeds, fun hints later last => ⟨hints.update_assoc later last, hints.update_unset,
    hints.unset_update⟩⟩

def Fragment.advising (line : UInt32) (hints : GeneratorHints) : Fragment :=
  { bare ⟨0x20000000⟩ none [] with
    hints
    locations := .single ⟨"node.idl", .line line⟩ }

/-- The name is replaced on line 2 and restated on line 3, where emission is skipped after all. -/
def FragmentGroup.advised : FragmentGroup :=
  ⟨⟨0x20000000⟩, [.advising 1 ⟨some "NodeBase", some "core/node.h", some false⟩,
    .advising 2 ⟨some "DomNode", none, none⟩, .advising 3 ⟨some "DomNode", none, some true⟩]⟩

def Declaration.advised : Declaration where
  identifier := ⟨0x20000000⟩
  attributes := .empty
  hints := ⟨some "DomNode", some "core/node.h", some true⟩
  overrides :=
    [⟨.nameOverride, "NodeBase", "DomNode", .single ⟨"node.idl", .line 2⟩⟩,
      ⟨.skipEmission, "false", "true", .single ⟨"node.idl", .line 3⟩⟩]
  components := [.unspecified]
  locations := ⟨[⟨"node.idl", .line 1⟩, ⟨"node.idl", .line 2⟩, ⟨"node.idl", .line 3⟩]⟩

theorem FragmentGroup.heeds_advised :
    advised.merge? .standard (Interner.new.holdAll ["Node"])
        = .ok (some (.ok ⟨.advised, .interface none [] []⟩))
      ∧ Declaration.advised.Heeds advised.fragments
      ∧ ∀ hints later last : GeneratorHints,
        (hints.update later).update last = hints.update (later.update last)
          ∧ hints.update .unset = hints ∧ GeneratorHints.unset.update hints = hints := by
  have merged : advised.merge? .standard (Interner.new.holdAll ["Node"])
      = .ok (some (.ok ⟨.advised, .interface none [] []⟩)) := by decide +kernel
  exact ⟨merged, heeds_of_merged merged⟩

end WebIdl
