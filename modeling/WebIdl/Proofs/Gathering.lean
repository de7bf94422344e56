import WebIdl.Proofs.Closure

namespace WebIdl

theorem Fragments.locations_entries (fragments : Fragments) :
    fragments.locations.entries
      = firstOccurrences (fragments.toList.flatMap (·.locations.entries)) := by
  have folded (kept : Locations) (named : List Fragment) :
      (named.foldl (·.union ·.locations) kept).entries
        = appendNew kept.entries (named.flatMap (·.locations.entries)) := by
    induction named generalizing kept with
    | nil => rfl
    | cons next rest ih =>
      rw [List.foldl_cons, ih, List.flatMap_cons, appendNew_append]
      rfl
  exact folded .empty fragments.toList

theorem Fragments.attributes_definition {policy : AttributePolicy} {fragments : Fragments}
    (mergeable : Mergeable policy fragments.toList) (identifier : Identifier) :
    (fragments.definition policy identifier).declaration.attributes.entries
      = firstOccurrences (fragments.toList.flatMap (·.attributes.entries)) := by
  have spec := attributes_spec policy fragments
  exact spec.2 (spec.1.mpr mergeable.consistent)

theorem map_filterMap_of_forall {α β : Type} {f : α → Option β} {g : β → α} {items : List α}
    (all : ∀ item ∈ items, (f item).map g = some item) : (items.filterMap f).map g = items := by
  rw [List.map_filterMap]
  induction items with
  | nil => rfl
  | cons item items ih =>
    obtain ⟨first, rest⟩ := List.forall_mem_cons.mp all
    simp only [List.filterMap_cons, first, ih rest]

namespace Scope

variable {interner : Interner} {definitions : List RawDefinition} {failed : List Identifier}

theorem map_reference? (distinct : DistinctlyNamed definitions) {expected : Kind}
    {name : Identifier} (isDefined : IsDefined definitions expected name) :
    ((ofDefinitions interner definitions failed).reference? expected name).map (·.identifier)
      = some name := by
  obtain ⟨definition, member, same, kind⟩ := isDefined
  obtain ⟨place, placed⟩ := List.mem_iff_getElem?.mp member
  rw [(reference?_eq_some_iff distinct).mpr ⟨place, definition, placed, same, kind, rfl⟩]
  rfl

end Scope

/-- The definition holds what its fragments say, in their order. Only names in types and
    references to definitions are rewritten. -/
structure Gathers (policy : AttributePolicy) (referent : Identifier → Referent)
    (named : List Fragment) (definition : ResolvedDefinition) : Prop where
  nonempty : named ≠ []
  kind : ∀ fragment ∈ named, fragment.kind = definition.kind
  members : definition.body.members
    = (named.flatMap fun fragment => fragment.body.members.map fun member =>
        { member with origin := ⟨fragment.component, fragment.isPartial⟩ }).map
      (·.mapTypes (·.map referent))
  dictionaryMembers : definition.body.dictionaryMembers
    = (named.flatMap fun fragment => fragment.body.dictionaryMembers.map fun member =>
        { member with origin := ⟨fragment.component, fragment.isPartial⟩ }).map
      (·.mapType (·.map referent))
  mixins : definition.body.includes.map (·.identifier)
    = firstOccurrences (named.flatMap (·.body.includes))
  parent : ∀ name, definition.body.inherited?.map (·.identifier) = some name
    ↔ ∃ fragment ∈ named, fragment.body.inherited? = some name
  signature : ∀ returnType arguments,
    (named.head?.map (·.body)) = some (.callbackFunction returnType arguments) →
      definition.body = .callbackFunction (returnType.map referent)
        (arguments.map (·.mapType (·.map referent)))
  values : ∀ values, (named.head?.map (·.body)) = some (.enumeration values) →
    definition.body = .enumeration values
  target : ∀ type, (named.head?.map (·.body)) = some (.typedef type) →
    definition.body = .typedef (type.map referent)
  components : definition.declaration.components = firstOccurrences (named.map (·.component))
  locations : definition.declaration.locations.entries
    = firstOccurrences (named.flatMap (·.locations.entries))
  attributes : definition.declaration.attributes.entries
    = firstOccurrences (named.flatMap (·.attributes.entries))

namespace MadeFrom

variable {policy : AttributePolicy} {interner : Interner} {fragments : List Fragment}
  {model : Model} {definitions : List RawDefinition}

theorem mixins_eq (made : MadeFrom policy interner fragments model definitions)
    {raw : RawDefinition} (member : raw ∈ definitions) :
    ((Scope.ofDefinitions interner definitions []).resolved raw).body.includes.map (·.identifier)
      = raw.body.includes := by
  obtain ⟨-, mixins, -⟩ := Body.forall_occurrences_iff.mp (made.references raw member)
  rw [Scope.resolved, Body.includes_map]
  exact map_filterMap_of_forall fun mixin stated =>
    Scope.map_reference? made.distinct (mixins mixin stated)

theorem parent_eq (made : MadeFrom policy interner fragments model definitions)
    {raw : RawDefinition} (member : raw ∈ definitions) :
    ((Scope.ofDefinitions interner definitions []).resolved raw).body.inherited?.map (·.identifier)
      = raw.body.inherited? := by
  obtain ⟨parents, -⟩ := Body.forall_occurrences_iff.mp (made.references raw member)
  rw [Scope.resolved, Body.inherited?_map]
  cases stated : raw.body.inherited? with
  | none => rfl
  | some parent => exact Scope.map_reference? made.distinct (parents parent stated)

theorem gathers (made : MadeFrom policy interner fragments model definitions)
    {raw : RawDefinition} (member : raw ∈ definitions) :
    Gathers policy (Scope.ofDefinitions interner definitions []).referent
      (fragmentsNamed fragments raw.identifier)
      ((Scope.ofDefinitions interner definitions []).resolved raw) := by
  obtain ⟨together, same, equal⟩ := (made.merged raw).mp member
  have mergeable := made.mergeable raw.identifier
  rw [← same] at mergeable
  have body : raw.body = together.body := by rw [equal]; rfl
  have declaration : raw.declaration
      = (together.definition policy raw.identifier).declaration := by rw [← equal]
  have whole (isWhole : together.first.body.IsWhole) : raw.body = together.first.body :=
    body.trans (Fragments.body_of_isWhole isWhole)
  rw [← same]
  constructor
  case nonempty => exact List.cons_ne_nil _ _
  case kind =>
    intro fragment inside
    rw [Scope.kind_resolved, Definition.kind, body, together.kind_body]
    exact mergeable.kind_eq fragment inside
  case members =>
    rw [Scope.resolved, Body.members_map, body, Fragments.members_body mergeable.kind_eq]
    rfl
  case dictionaryMembers =>
    rw [Scope.resolved, Body.dictionaryMembers_map, body,
      Fragments.dictionaryMembers_body mergeable.kind_eq]
    rfl
  case mixins => rw [made.mixins_eq member, body, Fragments.includes_body mergeable.kind_eq]
  case parent =>
    intro name
    rw [made.parent_eq member, body]
    exact mergeable.inherited?_body_iff
  case signature =>
    intro returnType arguments first
    have stated : together.first.body = .callbackFunction returnType arguments :=
      Option.some.inj first
    rw [Scope.resolved, whole (.inl (congrArg Body.kind stated)), stated]
    rfl
  case values =>
    intro values first
    have stated : together.first.body = .enumeration values := Option.some.inj first
    rw [Scope.resolved, whole (.inr (.inl (congrArg Body.kind stated))), stated]
    rfl
  case target =>
    intro type first
    have stated : together.first.body = .typedef type := Option.some.inj first
    rw [Scope.resolved, whole (.inr (.inr (congrArg Body.kind stated))), stated]
    rfl
  case components =>
    rw [Scope.resolved, declaration]
    rfl
  case locations =>
    rw [Scope.resolved, declaration]
    exact together.locations_entries
  case attributes =>
    rw [Scope.resolved, declaration]
    exact Fragments.attributes_definition mergeable raw.identifier

end MadeFrom

theorem Model.gathers_of_accepted {policy : AttributePolicy} {interner : Interner}
    {fragments : List Fragment} {model : Model}
    (accepted : ofCorpus policy interner (.ofFragments fragments) = .ok (.ok model)) :
    (∀ identifier, (∃ definition ∈ model.definitions, definition.identifier = identifier)
        ↔ ∃ fragment ∈ fragments, fragment.identifier = identifier)
      ∧ (model.definitions.map (·.identifier)).Nodup
      ∧ ∃ referent : Identifier → Referent, ∀ definition ∈ model.definitions,
        Gathers policy referent (fragmentsNamed fragments definition.identifier) definition := by
  obtain ⟨definitions, made⟩ := exists_madeFrom accepted
  refine ⟨fun identifier => ⟨?_, ?_⟩, ?_,
    (Scope.ofDefinitions interner definitions []).referent, fun definition member => ?_⟩
  · rintro ⟨definition, member, rfl⟩
    obtain ⟨raw, isRaw, rfl⟩ := made.mem_iff.mp member
    obtain ⟨together, same, -⟩ := (made.merged raw).mp isRaw
    have first : together.first ∈ together.toList := List.mem_cons_self
    rw [same] at first
    exact ⟨together.first, mem_fragmentsNamed.mp first⟩
  · rintro ⟨fragment, member, rfl⟩
    have inside := mem_fragmentsNamed.mpr ⟨member, rfl⟩
    cases named : fragmentsNamed fragments fragment.identifier with
    | nil =>
      rw [named] at inside
      nomatch inside
    | cons first others =>
      have isRaw : Fragments.definition policy fragment.identifier ⟨first, others⟩ ∈ definitions :=
        (made.merged _).mpr ⟨⟨first, others⟩, named.symm, rfl⟩
      exact ⟨_, made.mem_iff.mpr ⟨_, isRaw, rfl⟩, rfl⟩
  · rw [made.resolved, List.map_map]
    exact made.distinct
  · obtain ⟨raw, isRaw, rfl⟩ := made.mem_iff.mp member
    exact made.gathers isRaw

theorem Model.gathers_assorted :
    ofCorpus .standard .assorted (.ofFragments Fragment.assorted) = .ok (.ok assorted)
      ∧ (assorted.definitions.map (·.identifier)).Nodup
      ∧ ∃ referent, ∀ definition ∈ assorted.definitions, Gathers .standard referent
        (fragmentsNamed Fragment.assorted definition.identifier) definition := by
  obtain ⟨-, distinct, gathered⟩ := gathers_of_accepted ofCorpus_assorted
  exact ⟨ofCorpus_assorted, distinct, gathered⟩

end WebIdl
