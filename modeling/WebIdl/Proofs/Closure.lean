import WebIdl.Proofs.Outcome

namespace WebIdl

namespace Model

def Ancestors (model : Model) (interner : Interner) :
    ResolvedDefinition → List ResolvedDefinition → Prop
  | definition, [] => definition.body.inherited? = none
  | definition, parent :: rest =>
    (∃ handle ∈ definition.body.inherited?, model.resolve interner handle = .ok parent)
      ∧ model.Ancestors interner parent rest

/-- A model that can be read without a failure: names lead to the definitions that have them, and
    handles to definitions of this model. -/
structure Closed (interner : Interner) (model : Model) : Prop where
  sorted : ∃ names : List String,
    model.definitions.map (interner.spelling? ·.identifier) = names.map some
      ∧ names.Pairwise (· < ·)
  placed : ∀ place definition, model.definitions[place]? = some definition →
    model.get? definition.identifier = some definition
      ∧ (model.place? definition.identifier).map (·.toNat) = some place
      ∧ ∀ name, interner.spelling? definition.identifier = some name →
        model.getByName? interner name = some definition
  absent : ∀ identifier, (∀ definition ∈ model.definitions, definition.identifier ≠ identifier) →
    model.get? identifier = none ∧ model.place? identifier = none
  unnamed : ∀ name,
    (∀ definition ∈ model.definitions, interner.spelling? definition.identifier ≠ some name) →
      model.getByName? interner name = none
  handles : ∀ definition ∈ model.definitions, ∀ handle ∈ definition.handles,
    ∃ target ∈ model.definitions, model.resolve interner handle = .ok target
      ∧ target.identifier = handle.identifier
  parents : ∀ definition ∈ model.definitions, ∀ handle ∈ definition.body.inherited?,
    ∃ parent, model.resolve interner handle = .ok parent ∧ parent.kind = definition.kind
  mixins : ∀ definition ∈ model.definitions, ∀ handle ∈ definition.body.includes,
    ∃ mixin, model.resolve interner handle = .ok mixin ∧ mixin.kind = .interfaceMixin
  distinctMixins : ∀ definition ∈ model.definitions, definition.body.includes.Nodup
  ancestors : ∀ definition ∈ model.definitions, ∃ ancestors,
    model.Ancestors interner definition ancestors ∧ ancestors.length < model.size

end Model

@[simp] theorem Scope.kind_resolved (scope : Scope) (raw : RawDefinition) :
    (scope.resolved raw).kind = raw.kind := Body.kind_map _ _ raw.body

namespace MadeFrom

variable {policy : AttributePolicy} {interner : Interner} {fragments : List Fragment}
  {model : Model} {definitions : List RawDefinition}

theorem getElem?_eq_some_iff (made : MadeFrom policy interner fragments model definitions)
    {place : Nat} {definition : ResolvedDefinition} :
    model.definitions[place]? = some definition ↔ ∃ raw, definitions[place]? = some raw
      ∧ definition = (Scope.ofDefinitions interner definitions []).resolved raw := by
  rw [made.resolved, List.getElem?_map, Option.map_eq_some_iff]
  simp only [eq_comm]

theorem mem_iff (made : MadeFrom policy interner fragments model definitions)
    {definition : ResolvedDefinition} :
    definition ∈ model.definitions ↔ ∃ raw ∈ definitions,
      definition = (Scope.ofDefinitions interner definitions []).resolved raw := by
  rw [made.resolved, List.mem_map]
  simp only [eq_comm]

theorem resolve_eq_ok (made : MadeFrom policy interner fragments model definitions)
    (later : Interner) {place : Nat} {raw : RawDefinition}
    (placed : definitions[place]? = some raw) :
    model.resolve later ⟨raw.identifier, .ofNat place⟩
      = .ok ((Scope.ofDefinitions interner definitions []).resolved raw) := by
  have bound := (List.getElem?_eq_some_iff.mp placed).1
  have found := made.getElem?_eq_some_iff.mpr ⟨raw, placed, rfl⟩
  unfold Model.resolve
  rw [made.distinct.toNat_ofNat_place bound, found]
  exact if_pos rfl

theorem place?_eq (made : MadeFrom policy interner fragments model definitions) {place : Nat}
    {definition : ResolvedDefinition} (placed : model.definitions[place]? = some definition) :
    model.place? definition.identifier = some (.ofNat place) := by
  obtain ⟨bound, found⟩ := List.getElem?_eq_some_iff.mp placed
  have first : model.definitions.findIdx? (·.identifier = definition.identifier) = some place := by
    refine List.findIdx?_eq_some_iff_getElem.mpr ⟨bound, by simp [found], fun earlier before => ?_⟩
    obtain ⟨raw, at_, rfl⟩ := made.getElem?_eq_some_iff.mp placed
    obtain ⟨other, at_', same⟩ := made.getElem?_eq_some_iff.mp
      (List.getElem?_eq_getElem (Nat.lt_trans before bound))
    rw [same]
    intro equal
    exact absurd (made.distinct.place_eq at_' at_ (of_decide_eq_true equal)) (Nat.ne_of_lt before)
  rw [Model.place?, first]
  rfl

theorem get?_eq (made : MadeFrom policy interner fragments model definitions) {place : Nat}
    {definition : ResolvedDefinition} (placed : model.definitions[place]? = some definition) :
    model.get? definition.identifier = some definition := by
  obtain ⟨raw, isRaw, -⟩ := made.getElem?_eq_some_iff.mp placed
  rw [Model.get?, made.place?_eq placed]
  simp only [Option.bind_eq_bind, Option.bind_some,
    made.distinct.toNat_ofNat_place (List.getElem?_eq_some_iff.mp isRaw).1, placed]

theorem exists_parent (made : MadeFrom policy interner fragments model definitions)
    {raw : RawDefinition} {handle : Handle}
    (isParent : handle
      ∈ ((Scope.ofDefinitions interner definitions []).resolved raw).body.inherited?) :
    ∃ place parent, definitions[place]? = some parent ∧ handle = ⟨parent.identifier, .ofNat place⟩
      ∧ raw.body.inherited? = some parent.identifier ∧ parent.kind = raw.kind := by
  rw [Scope.resolved, Body.inherited?_map] at isParent
  obtain ⟨name, stated, isHandle⟩ := Option.bind_eq_some_iff.mp isParent
  obtain ⟨place, parent, placed, rfl, kind, rfl⟩ :=
    (Scope.reference?_eq_some_iff made.distinct).mp isHandle
  exact ⟨place, parent, placed, rfl, stated, kind⟩

theorem exists_mixin (made : MadeFrom policy interner fragments model definitions)
    {raw : RawDefinition} {handle : Handle}
    (isMixin : handle
      ∈ ((Scope.ofDefinitions interner definitions []).resolved raw).body.includes) :
    ∃ place mixin, definitions[place]? = some mixin ∧ handle = ⟨mixin.identifier, .ofNat place⟩
      ∧ mixin.kind = .interfaceMixin := by
  rw [Scope.resolved, Body.includes_map] at isMixin
  obtain ⟨name, -, isHandle⟩ := List.mem_filterMap.mp isMixin
  obtain ⟨place, mixin, placed, rfl, kind, rfl⟩ :=
    (Scope.reference?_eq_some_iff made.distinct).mp isHandle
  exact ⟨place, mixin, placed, rfl, kind⟩

theorem exists_target (made : MadeFrom policy interner fragments model definitions)
    {raw : RawDefinition} {handle : Handle}
    (isHandle : handle ∈ ((Scope.ofDefinitions interner definitions []).resolved raw).handles) :
    ∃ place target, definitions[place]? = some target
      ∧ handle = ⟨target.identifier, .ofNat place⟩ := by
  rcases List.mem_append.mp isHandle with reference | inType
  · rcases List.mem_append.mp reference with isParent | isMixin
    · obtain ⟨place, parent, placed, equal, -⟩ := made.exists_parent (Option.mem_toList.mp isParent)
      exact ⟨place, parent, placed, equal⟩
    · obtain ⟨place, mixin, placed, equal, -⟩ := made.exists_mixin isMixin
      exact ⟨place, mixin, placed, equal⟩
  · rw [Scope.resolved, Body.types_map] at inType
    simp only [List.mem_flatMap, List.mem_map, ResolvedType.references,
      List.mem_filterMap] at inType
    obtain ⟨_, ⟨type, -, rfl⟩, referent, isLeaf, isReferent⟩ := inType
    rw [TypeExpr.leaves_map] at isLeaf
    obtain ⟨name, -, rfl⟩ := List.mem_map.mp isLeaf
    cases resolves : (Scope.ofDefinitions interner definitions []).referent name with
    | builtin type =>
      rw [resolves] at isReferent
      nomatch isReferent
    | definition found =>
      rw [resolves] at isReferent
      obtain rfl := Option.some.inj isReferent
      obtain ⟨place, target, placed, rfl, equal⟩ :=
        Scope.referent_eq_definition made.distinct resolves
      exact ⟨place, target, placed, equal⟩

theorem nodup_includes (made : MadeFrom policy interner fragments model definitions)
    {raw : RawDefinition} (member : raw ∈ definitions) :
    ((Scope.ofDefinitions interner definitions []).resolved raw).body.includes.Nodup := by
  obtain ⟨together, same, equal⟩ := (made.merged raw).mp member
  have mergeable := made.mergeable raw.identifier
  rw [← same] at mergeable
  have distinct : raw.body.includes.Nodup := by
    rw [equal]
    exact Fragments.includes_body mergeable.kind_eq ▸ nodup_firstOccurrences _
  rw [Scope.resolved, Body.includes_map]
  refine List.Pairwise.filterMap _ ?_ distinct
  intro one other differ handle isHandle handle' isHandle' equal
  obtain ⟨_, _, _, _, _, rfl⟩ := (Scope.reference?_eq_some_iff made.distinct).mp isHandle
  obtain ⟨_, _, _, _, _, rfl⟩ := (Scope.reference?_eq_some_iff made.distinct).mp isHandle'
  exact differ (Handle.mk.inj equal).1

theorem exists_ancestors (made : MadeFrom policy interner fragments model definitions)
    (later : Interner) {raw : RawDefinition} (member : raw ∈ definitions) :
    ∃ ancestors, model.Ancestors later
        ((Scope.ofDefinitions interner definitions []).resolved raw) ancestors
      ∧ (∀ ancestor ∈ ancestors, ancestor ∈ model.definitions
        ∧ Relation.TransGen (Inherits definitions) ancestor.identifier raw.identifier)
      ∧ ((Scope.ofDefinitions interner definitions []).resolved raw :: ancestors).Nodup := by
  have accessible := Scope.acc_inherits made.distinct made.acyclic raw.identifier
  generalize named : raw.identifier = identifier at accessible
  induction accessible generalizing raw with
  | intro identifier _ ih =>
    cases stated : ((Scope.ofDefinitions interner definitions []).resolved raw).body.inherited? with
    | none => exact ⟨[], stated, nofun, by simp⟩
    | some handle =>
      obtain ⟨place, parent, placed, equal, states, kind⟩ := made.exists_parent stated
      have isDefinition := List.mem_of_getElem? placed
      have inherits : Inherits definitions parent.identifier raw.identifier :=
        ⟨raw, member, rfl, states, parent, isDefinition, rfl, kind⟩
      obtain ⟨ancestors, chain, above, distinct⟩ :=
        ih parent.identifier (named ▸ inherits) isDefinition rfl
      have above' : ∀ ancestor ∈ (Scope.ofDefinitions interner definitions []).resolved parent
          :: ancestors, ancestor ∈ model.definitions
            ∧ Relation.TransGen (Inherits definitions) ancestor.identifier raw.identifier := by
        refine List.forall_mem_cons.mpr ⟨?_, fun ancestor inside => ?_⟩
        · exact ⟨made.mem_iff.mpr ⟨parent, isDefinition, rfl⟩, .single inherits⟩
        · exact ⟨(above ancestor inside).1, (above ancestor inside).2.tail inherits⟩
      refine ⟨_ :: ancestors, ⟨⟨handle, stated, ?_⟩, chain⟩, named ▸ above', ?_⟩
      · exact equal ▸ made.resolve_eq_ok later placed
      · exact List.nodup_cons.mpr ⟨fun inside => made.acyclic _ (above' _ inside).2, distinct⟩

end MadeFrom

theorem Model.place?_eq_none {model : Model} {identifier : Identifier}
    (absent : ∀ definition ∈ model.definitions, definition.identifier ≠ identifier) :
    model.place? identifier = none := by
  have none : model.definitions.findIdx? (·.identifier = identifier) = none := by
    simpa [List.findIdx?_eq_none_iff] using absent
  rw [place?, none]
  rfl

theorem Model.get?_eq_none {model : Model} {identifier : Identifier}
    (absent : ∀ definition ∈ model.definitions, definition.identifier ≠ identifier) :
    model.get? identifier = none := by
  rw [get?, place?_eq_none absent]
  rfl

namespace MadeFrom

variable {policy : AttributePolicy} {interner : Interner} {fragments : List Fragment}
  {model : Model} {definitions : List RawDefinition}

theorem names_sorted (made : MadeFrom policy interner fragments model definitions)
    (more : List String) :
    ∃ names : List String,
      model.definitions.map ((interner.holdAll more).spelling? ·.identifier) = names.map some
        ∧ names.Pairwise (· < ·) := by
  refine ⟨definitions.map fun raw => interner.spell raw.identifier, ?_, ?_⟩
  · rw [made.resolved, List.map_map, List.map_map]
    refine List.map_congr_left fun raw member => ?_
    exact Interner.spelling?_holdAll (made.held raw member).spelling?_eq more
  · rw [List.pairwise_map]
    exact made.sorted

theorem ancestors_short (made : MadeFrom policy interner fragments model definitions)
    (later : Interner) {definition : ResolvedDefinition} (member : definition ∈ model.definitions) :
    ∃ ancestors, model.Ancestors later definition ancestors ∧ ancestors.length < model.size := by
  obtain ⟨raw, isRaw, rfl⟩ := made.mem_iff.mp member
  obtain ⟨ancestors, chain, above, distinct⟩ := made.exists_ancestors later isRaw
  refine ⟨ancestors, chain, ?_⟩
  have inside : (_ :: ancestors) ⊆ model.definitions :=
    List.cons_subset.mpr ⟨member, fun ancestor isAncestor => (above ancestor isAncestor).1⟩
  exact (distinct.subperm inside).length_le

theorem closed (made : MadeFrom policy interner fragments model definitions) (more : List String) :
    model.Closed (interner.holdAll more) where
  sorted := made.names_sorted more
  placed place definition placed := by
    obtain ⟨raw, isRaw, -⟩ := made.getElem?_eq_some_iff.mp placed
    refine ⟨made.get?_eq placed, ?_, fun name spelled => ?_⟩
    · rw [made.place?_eq placed]
      exact congrArg some
        (made.distinct.toNat_ofNat_place (List.getElem?_eq_some_iff.mp isRaw).1)
    · rw [Model.getByName?, Interner.find?_of_spelling? spelled]
      exact made.get?_eq placed
  absent identifier absent := ⟨Model.get?_eq_none absent, Model.place?_eq_none absent⟩
  unnamed name unnamed := by
    unfold Model.getByName?
    cases found : (interner.holdAll more).find? name with
    | none => rfl
    | some identifier =>
      refine Model.get?_eq_none fun definition member same => unnamed definition member ?_
      rw [same]
      exact Interner.spelling?_of_find? found
  handles definition member handle isHandle := by
    obtain ⟨raw, -, rfl⟩ := made.mem_iff.mp member
    obtain ⟨place, target, placed, rfl⟩ := made.exists_target isHandle
    exact ⟨_, made.mem_iff.mpr ⟨target, List.mem_of_getElem? placed, rfl⟩,
      made.resolve_eq_ok _ placed, rfl⟩
  parents definition member handle isParent := by
    obtain ⟨raw, -, rfl⟩ := made.mem_iff.mp member
    obtain ⟨place, parent, placed, rfl, -, kind⟩ := made.exists_parent isParent
    refine ⟨_, made.resolve_eq_ok _ placed, ?_⟩
    rw [Scope.kind_resolved, Scope.kind_resolved, kind]
  mixins definition member handle isMixin := by
    obtain ⟨raw, -, rfl⟩ := made.mem_iff.mp member
    obtain ⟨place, mixin, placed, rfl, kind⟩ := made.exists_mixin isMixin
    refine ⟨_, made.resolve_eq_ok _ placed, ?_⟩
    rw [Scope.kind_resolved, kind]
  distinctMixins definition member := by
    obtain ⟨raw, isRaw, rfl⟩ := made.mem_iff.mp member
    exact made.nodup_includes isRaw
  ancestors definition member := made.ancestors_short _ member

end MadeFrom

/-- Every model that is built is closed, and stays so when more spellings are interned. -/
theorem Model.closed_of_accepted {policy : AttributePolicy} {interner : Interner}
    {fragments : List Fragment} {model : Model}
    (accepted : ofCorpus policy interner (.ofFragments fragments) = .ok (.ok model))
    (more : List String) : model.Closed (interner.holdAll more) := by
  obtain ⟨definitions, made⟩ := exists_madeFrom accepted
  exact made.closed more

def ResolvedDefinition.bare (identifier : Identifier) (parent : Option Handle) :
    ResolvedDefinition where
  declaration := ⟨identifier, .empty, .unset, [], [.unspecified], .empty⟩
  body := .interface parent [] []

theorem Model.ofCorpus_parentAfterChild :
    ofCorpus .standard (Interner.new.holdAll ["Node", "Leaf"])
        (.ofFragments [Fragment.bare ⟨0xE0000001⟩ (some ⟨0x20000000⟩) [],
          Fragment.bare ⟨0x20000000⟩ none []])
      = .ok (.ok ⟨[.bare ⟨0xE0000001⟩ (some ⟨⟨0x20000000⟩, 1⟩), .bare ⟨0x20000000⟩ none]⟩) :=
  (ofCorpus_of_ordered _ _ _ [1, 0] [] (by decide +kernel) (by decide +kernel)
    (by decide +kernel) (by decide +kernel)).trans (by decide +kernel)

theorem Model.closed_bare :
    ofCorpus .standard (Interner.new.holdAll ["Node", "Leaf"])
        (.ofFragments [Fragment.bare ⟨0xE0000001⟩ (some ⟨0x20000000⟩) [],
          Fragment.bare ⟨0x20000000⟩ none []])
      = .ok (.ok ⟨[.bare ⟨0xE0000001⟩ (some ⟨⟨0x20000000⟩, 1⟩), .bare ⟨0x20000000⟩ none]⟩)
      ∧ Model.Closed ((Interner.new.holdAll ["Node", "Leaf"]).holdAll ["Later"])
        ⟨[.bare ⟨0xE0000001⟩ (some ⟨⟨0x20000000⟩, 1⟩), .bare ⟨0x20000000⟩ none]⟩ :=
  ⟨ofCorpus_parentAfterChild, closed_of_accepted ofCorpus_parentAfterChild ["Later"]⟩

end WebIdl
