import WebIdl.Proofs.Gathering

namespace WebIdl

variable {α β γ : Type}

namespace TypeExpr

def shape (type : TypeExpr α) : TypeExpr Unit := type.map fun _ => ()

theorem shape_map (f : α → β) (type : TypeExpr α) : (type.map f).shape = type.shape :=
  map_map f (fun _ => ()) type

theorem mapM_map_eq_ok {f : β → Except Fault γ} {g : α → β} {h : α → γ} {type : TypeExpr α}
    (each : ∀ name ∈ type.leaves, f (g name) = .ok (h name)) :
    (type.map g).mapM f = .ok (type.map h) := by
  induction type with
  | leaf name =>
    have only := each name (List.mem_singleton_self name)
    rw [map, mapM, only]
    rfl
  | wrapped wrapper inner ih =>
    rw [map, mapM, ih each]
    rfl
  | record key value ihKey ihValue =>
    obtain ⟨eachKey, eachValue⟩ := List.forall_mem_append.mp each
    rw [map, mapM, ihKey eachKey, ihValue eachValue]
    rfl
  | union members ih =>
    rw [leaves, leavesList_eq_flatMap, List.forall_mem_flatMap] at each
    have all : Gives (∀ member ∈ members, True) ((members.map (map g)).mapM (mapM f))
        (members.map (map h)) := by
      rw [List.mapM_map]
      exact Gives.mapM fun member inside => .inl (ih member inside (each member inside))
    rw [map, mapList_eq_map, mapM, mapMList_eq_mapM, all.eq_ok fun _ _ => trivial, map,
      mapList_eq_map]
    rfl

end TypeExpr

namespace BuiltinType

theorem ofSpelling?_spelling (builtin : BuiltinType) :
    ofSpelling? builtin.spelling = some builtin := by
  have all : ∀ builtin ∈ all, ofSpelling? builtin.spelling = some builtin := by decide +kernel
  exact all builtin builtin.mem_all

theorem ofSpelling?_eq_some_iff {spelling : String} {builtin : BuiltinType} :
    ofSpelling? spelling = some builtin ↔ builtin.spelling = spelling := by
  constructor
  · intro found
    simpa using List.find?_some found
  · rintro rfl
    exact ofSpelling?_spelling builtin

end BuiltinType

namespace Interner

def SpellsBuiltin (interner : Interner) (name : Identifier) : Prop :=
  ∃ builtin : BuiltinType, interner.spelling? name = some builtin.spelling

instance (interner : Interner) (name : Identifier) : Decidable (interner.SpellsBuiltin name) :=
  decidable_of_iff (∃ builtin ∈ BuiltinType.all, interner.spelling? name = some builtin.spelling)
    ⟨fun ⟨builtin, _, spelled⟩ => ⟨builtin, spelled⟩,
      fun ⟨builtin, spelled⟩ => ⟨builtin, builtin.mem_all, spelled⟩⟩

theorem Holds.ofSpelling?_eq_some_iff {interner : Interner} {name : Identifier}
    (holds : interner.Holds name) {builtin : BuiltinType} :
    BuiltinType.ofSpelling? (interner.spell name) = some builtin
      ↔ interner.spelling? name = some builtin.spelling := by
  rw [BuiltinType.ofSpelling?_eq_some_iff, holds.spelling?_eq, Option.some.injEq, eq_comm]

theorem Holds.ofSpelling?_eq_none_iff {interner : Interner} {name : Identifier}
    (holds : interner.Holds name) :
    BuiltinType.ofSpelling? (interner.spell name) = none ↔ ¬ interner.SpellsBuiltin name := by
  simp only [Option.eq_none_iff_forall_ne_some, ne_eq, holds.ofSpelling?_eq_some_iff, SpellsBuiltin,
    not_exists]

end Interner

namespace Scope

/-- What a name in a type stands for. A builtin type comes before a definition of its name. -/
inductive StandsFor (scope : Scope) (name : Identifier) : Referent → Prop where
  | builtin (type : BuiltinType) (spelled : scope.interner.spelling? name = some type.spelling) :
    StandsFor scope name (.builtin type)
  | definition (known : RawDefinition × Nat) (notBuiltin : ¬ scope.interner.SpellsBuiltin name)
      (found : scope.find? name = some known) :
    StandsFor scope name (.definition ⟨name, .ofNat known.2⟩)
  | unknown (notBuiltin : ¬ scope.interner.SpellsBuiltin name)
      (missing : scope.find? name = none) : StandsFor scope name (.builtin .any)

def Knows (scope : Scope) (name : Identifier) : Prop :=
  scope.interner.SpellsBuiltin name ∨ (scope.find? name).isSome

structure Renders (scope : Scope) (type : RawType) (resolved : ResolvedType) : Prop where
  shape : resolved.shape = type.shape
  leaves : List.Forall₂ scope.StandsFor type.leaves resolved.leaves
  text : (∀ name ∈ type.leaves, scope.Knows name) →
    ∃ text, type.text scope.interner = .ok text ∧ resolved.text scope.interner = .ok text
  references : (∀ name ∈ type.leaves, scope.Knows name) →
    resolved.references.map some
      = (type.leaves.filter fun name => ¬ scope.interner.SpellsBuiltin name).map scope.handle?

variable {scope : Scope} {name : Identifier} {type : RawType}

theorem Knows.spellsBuiltin (known : scope.Knows name) (missing : scope.find? name = none) :
    scope.interner.SpellsBuiltin name := by
  refine known.resolve_right fun found => ?_
  rw [missing] at found
  exact Bool.false_ne_true found

theorem standsFor_referent (holds : scope.interner.Holds name) :
    scope.StandsFor name (scope.referent name) := by
  unfold referent
  cases spelled : BuiltinType.ofSpelling? (scope.interner.spell name) with
  | some builtin => exact .builtin builtin (holds.ofSpelling?_eq_some_iff.mp spelled)
  | none =>
    have notBuiltin := holds.ofSpelling?_eq_none_iff.mp spelled
    unfold handle?
    cases found : scope.find? name with
    | none => exact .unknown notBuiltin found
    | some known => exact .definition known notBuiltin found

theorem StandsFor.spelling_eq {referent : Referent} (stands : scope.StandsFor name referent)
    (holds : scope.interner.Holds name) (known : scope.Knows name) :
    referent.spelling scope.interner = .ok (scope.interner.spell name) := by
  have spelled := holds.spelling?_eq
  cases stands with
  | builtin type isType =>
    rw [isType] at spelled
    exact congrArg Except.ok (Option.some.inj spelled)
  | definition => exact Interner.lookup_eq_ok_iff.mpr spelled
  | unknown notBuiltin missing => exact absurd (known.spellsBuiltin missing) notBuiltin

theorem StandsFor.handle?_eq {referent : Referent} (stands : scope.StandsFor name referent)
    (known : scope.Knows name) :
    referent.handle? = if scope.interner.SpellsBuiltin name then none else scope.handle? name := by
  cases stands with
  | builtin type isType => rw [if_pos ⟨type, isType⟩]; rfl
  | definition known notBuiltin found =>
    rw [if_neg notBuiltin, Scope.handle?, found]
    rfl
  | unknown notBuiltin missing => exact absurd (known.spellsBuiltin missing) notBuiltin

theorem references_eq {names : List Identifier} {referents : List Referent}
    (stand : List.Forall₂ scope.StandsFor names referents)
    (known : ∀ name ∈ names, scope.Knows name) :
    (referents.filterMap (·.handle?)).map some
      = (names.filter fun name => ¬ scope.interner.SpellsBuiltin name).map scope.handle? := by
  induction stand with
  | nil => rfl
  | @cons name referent names referents first rest ih =>
    obtain ⟨isKnown, others⟩ := List.forall_mem_cons.mp known
    have handle := first.handle?_eq isKnown
    by_cases isBuiltin : scope.interner.SpellsBuiltin name
    · rw [if_pos isBuiltin] at handle
      simpa [handle, isBuiltin] using ih others
    · rw [if_neg isBuiltin] at handle
      obtain ⟨found, isFound⟩ := Option.isSome_iff_exists.mp (isKnown.resolve_left isBuiltin)
      have isHandle : scope.handle? name = some ⟨name, .ofNat found.2⟩ := by
        rw [Scope.handle?, isFound]
        rfl
      rw [isHandle] at handle
      simpa [handle, isBuiltin, isHandle] using ih others

theorem renders_map (held : ∀ name ∈ type.leaves, scope.interner.Holds name) :
    scope.Renders type (type.map scope.referent) := by
  have stand : List.Forall₂ scope.StandsFor type.leaves (type.map scope.referent).leaves := by
    rw [TypeExpr.leaves_map, List.forall₂_map_right_iff, List.forall₂_same]
    exact fun name isLeaf => standsFor_referent (held name isLeaf)
  constructor
  case shape => exact TypeExpr.shape_map scope.referent type
  case leaves => exact stand
  case text =>
    intro known
    have raw : (type.map id).mapM scope.interner.lookup = .ok (type.map scope.interner.spell) :=
      TypeExpr.mapM_map_eq_ok fun name isLeaf =>
        Interner.lookup_eq_ok_iff.mpr (held name isLeaf).spelling?_eq
    have resolved : (type.map scope.referent).mapM (Referent.spelling scope.interner)
        = .ok (type.map scope.interner.spell) :=
      TypeExpr.mapM_map_eq_ok fun name isLeaf =>
        (standsFor_referent (held name isLeaf)).spelling_eq (held name isLeaf) (known name isLeaf)
    refine ⟨(type.map scope.interner.spell).text, ?_, ?_⟩
    · rw [RawType.text, ← type.map_id, raw, type.map_id]
      rfl
    · rw [ResolvedType.text, resolved]
      rfl
  case references => exact fun known => references_eq stand known

theorem adds_resolveType (scope : Scope) (site : Site) (position : Position) (type : RawType) :
    Reporting.Adds ((∀ name ∈ type.leaves, scope.interner.Holds name)
        ∧ ∀ name ∈ type.leaves, scope.Unresolved (.type position name) →
          ∀ label ∈ position.names, scope.interner.Holds label)
      (scope.resolveType site position type) (type.map scope.referent)
      ((type.occurrences position).flatMap (scope.problemsAt site)) := by
  let needed (occurrence : Occurrence) : Prop := scope.interner.Holds occurrence.name
    ∧ (scope.Unresolved occurrence →
      ∀ label ∈ occurrence.position.names, scope.interner.Holds label)
  have eachName (position : Position) (name : Identifier) :
      Reporting.Adds (needed (.type position name)) (scope.resolveName site position name)
        (scope.referent name) (scope.problemsAt site (.type position name)) :=
    scope.adds_resolveName site position name
  have each : Reporting.Adds (∀ occurrence ∈ type.occurrences position, needed occurrence)
      (scope.resolveType site position type) (type.map scope.referent)
      ((type.occurrences position).flatMap (scope.problemsAt site)) :=
    adds_type eachName position type
  refine each.mono fun ⟨held, described⟩ => ?_
  rw [TypeExpr.occurrences, List.forall_mem_map]
  exact fun name isLeaf => ⟨held name isLeaf, described name isLeaf⟩

end Scope

theorem IsType.knows {interner : Interner} {definitions : List RawDefinition} {name : Identifier}
    (isType : IsType definitions interner name)
    (held : ∀ definition ∈ definitions, interner.Holds definition.identifier) :
    interner.Holds name ∧ (Scope.ofDefinitions interner definitions []).Knows name := by
  rcases isType with ⟨builtin, spelled⟩ | ⟨definition, member, rfl⟩
  · have holds : interner.Holds name := by
      by_contra missing
      have nameless : interner.spell name = "" := by
        rw [Interner.spell, Option.not_isSome_iff_eq_none.mp missing]
        rfl
      have nonempty : ∀ builtin ∈ BuiltinType.all, builtin.spelling ≠ "" := by decide
      exact nonempty builtin builtin.mem_all (spelled.trans nameless)
    exact ⟨holds, .inl ⟨builtin, spelled ▸ holds.spelling?_eq⟩⟩
  · refine ⟨held definition member, .inr ?_⟩
    by_contra unknown
    have absent := Scope.find?_eq_none_iff.mp (Option.not_isSome_iff_eq_none.mp unknown)
    exact absent definition member rfl

namespace MadeFrom

variable {policy : AttributePolicy} {interner : Interner} {fragments : List Fragment}
  {model : Model} {definitions : List RawDefinition}

theorem handle?_eq (made : MadeFrom policy interner fragments model definitions)
    (name : Identifier) : (Scope.ofDefinitions interner definitions []).handle? name
      = (model.place? name).map (⟨name, ·⟩) := by
  unfold Scope.handle?
  cases found : (Scope.ofDefinitions interner definitions []).find? name with
  | none =>
    have absent := Scope.find?_eq_none_iff.mp found
    rw [Model.place?_eq_none]
    · rfl
    · intro definition member
      obtain ⟨raw, isRaw, rfl⟩ := made.mem_iff.mp member
      exact absent raw isRaw
  | some known =>
    obtain ⟨raw, place⟩ := known
    obtain ⟨placed, rfl⟩ := (Scope.find?_eq_some_iff made.distinct).mp found
    have resolved := made.getElem?_eq_some_iff.mpr ⟨raw, placed, rfl⟩
    have same : model.place? raw.identifier = some (.ofNat place) := made.place?_eq resolved
    rw [same]
    rfl

theorem renders_types (made : MadeFrom policy interner fragments model definitions)
    {definition : ResolvedDefinition} (member : definition ∈ model.definitions) :
    ∃ together : Fragments, together.toList = fragmentsNamed fragments definition.identifier
      ∧ List.Forall₂ (fun type resolved =>
          (∀ name ∈ type.leaves, (Scope.ofDefinitions interner definitions []).Knows name)
            ∧ (Scope.ofDefinitions interner definitions []).Renders type resolved)
        together.body.types definition.body.types := by
  obtain ⟨raw, isRaw, rfl⟩ := made.mem_iff.mp member
  obtain ⟨together, same, equal⟩ := (made.merged raw).mp isRaw
  have body : raw.body = together.body := by rw [equal]; rfl
  refine ⟨together, same, ?_⟩
  rw [Scope.resolved, Body.types_map, ← body, List.forall₂_map_right_iff, List.forall₂_same]
  intro type isType
  obtain ⟨-, -, types⟩ := Body.forall_occurrences_iff.mp (made.references raw isRaw)
  have known (name : Identifier) (isLeaf : name ∈ type.leaves) :=
    (types type isType name isLeaf).knows made.held
  exact ⟨fun name isLeaf => (known name isLeaf).2,
    Scope.renders_map fun name isLeaf => (known name isLeaf).1⟩

end MadeFrom

/-- A type keeps its tree, and each of its names is replaced by what it stands for. If all names
    are known then the text is the same, and they all are in a model. -/
theorem Scope.renders_of_held :
    (∀ (scope : Scope) (site : Site) (position : Position) (type : RawType),
      (∀ name ∈ type.leaves, scope.interner.Holds name) →
      (∀ name ∈ type.leaves, scope.Unresolved (.type position name) →
        ∀ label ∈ position.names, scope.interner.Holds label) →
      ∀ before, ∃ resolved problems,
        (scope.resolveType site position type).run before = .ok (resolved, before ++ problems)
          ∧ scope.Renders type resolved)
    ∧ ∀ (policy : AttributePolicy) (interner : Interner) (fragments : List Fragment)
        (model : Model),
      Model.ofCorpus policy interner (.ofFragments fragments) = .ok (.ok model) →
      ∃ scope : Scope, scope.interner = interner
        ∧ (∀ name, scope.handle? name = (model.place? name).map (⟨name, ·⟩))
        ∧ ∀ definition ∈ model.definitions, ∃ together : Fragments,
          together.toList = fragmentsNamed fragments definition.identifier
            ∧ List.Forall₂ (fun type resolved =>
                (∀ name ∈ type.leaves, scope.Knows name) ∧ scope.Renders type resolved)
              together.body.types definition.body.types := by
  constructor
  · intro scope site position type held described before
    exact ⟨_, _, (scope.adds_resolveType site position type before).eq_ok ⟨held, described⟩,
      renders_map held⟩
  · intro policy interner fragments model accepted
    obtain ⟨definitions, made⟩ := Model.exists_madeFrom accepted
    exact ⟨_, rfl, made.handle?_eq, fun definition member => made.renders_types member⟩

def Fragment.withAttr (identifier name : Identifier) (type : RawType) : Fragment :=
  { bare identifier none [] with
    isPartial := true
    body := .interface none [⟨.attr name type .empty, .empty, .empty, default⟩] [] }

/-- `long` is a definition too, `Gone` could not be merged and `Missing` stands for nothing. -/
def Scope.shadowing : Scope :=
  .ofDefinitions (Interner.new.holdAll ["Node", "next", "Missing", "Gone"])
    [⟨⟨⟨0xC0000002⟩, .empty, .unset, [], [], .empty⟩, .enumeration []⟩,
      ⟨⟨⟨0x20000000⟩, .empty, .unset, [], [], .empty⟩, .interface none [] []⟩]
    [⟨0xF0000004⟩]

/-- `(Node? or record<long, Gone> or Missing)` -/
def RawType.nested : RawType :=
  .union [.wrapped .nullable (.leaf ⟨0x20000000⟩),
    .record (.leaf ⟨0xC0000002⟩) (.leaf ⟨0xF0000004⟩), .leaf ⟨0x60000002⟩]

def ResolvedType.nested : ResolvedType :=
  .union [.wrapped .nullable (.leaf (.definition ⟨⟨0x20000000⟩, 1⟩)),
    .record (.leaf (.builtin .long)) (.leaf (.builtin .any)), .leaf (.builtin .any)]

theorem Scope.renders_nested :
    (∀ name ∈ RawType.nested.leaves, shadowing.interner.Holds name)
      ∧ (∀ name ∈ RawType.nested.leaves, shadowing.Unresolved (.type (.attr ⟨0x30000002⟩) name) →
        ∀ label ∈ (Position.attr ⟨0x30000002⟩).names, shadowing.interner.Holds label)
      ∧ (shadowing.resolveType ⟨⟨0x20000000⟩, "Node", .empty⟩ (.attr ⟨0x30000002⟩)
          RawType.nested).run [] = .ok (ResolvedType.nested, [⟨⟨0x20000000⟩, "Node",
            .unresolvedReference "Missing" "attribute `next`" .empty⟩])
      ∧ shadowing.Renders RawType.nested ResolvedType.nested
      ∧ Model.ofCorpus .standard (Interner.new.holdAll ["Node", "next"])
          (.ofFragments [.bare ⟨0x20000000⟩ none [],
            .withAttr ⟨0x20000000⟩ ⟨0x30000002⟩ (.wrapped .nullable (.leaf ⟨0x20000000⟩))])
        = .ok (.ok ⟨[⟨⟨⟨0x20000000⟩, .empty, .unset, [], [.unspecified], .empty⟩,
          .interface none [⟨.attr ⟨0x30000002⟩
            (.wrapped .nullable (.leaf (.definition ⟨⟨0x20000000⟩, 0⟩))) .empty,
            .empty, .empty, ⟨.unspecified, true⟩⟩] []⟩]⟩)
      ∧ ∃ scope : Scope, ∃ together : Fragments,
        together.toList = fragmentsNamed [.bare ⟨0x20000000⟩ none [],
            .withAttr ⟨0x20000000⟩ ⟨0x30000002⟩ (.wrapped .nullable (.leaf ⟨0x20000000⟩))]
          ⟨0x20000000⟩
        ∧ List.Forall₂ (fun type resolved =>
            (∀ name ∈ type.leaves, scope.Knows name) ∧ scope.Renders type resolved)
          together.body.types [.wrapped .nullable (.leaf (.definition ⟨⟨0x20000000⟩, 0⟩))] := by
  have held : ∀ name ∈ RawType.nested.leaves, shadowing.interner.Holds name := by decide +kernel
  have described : ∀ name ∈ RawType.nested.leaves,
      shadowing.Unresolved (.type (.attr ⟨0x30000002⟩) name) →
        ∀ label ∈ (Position.attr ⟨0x30000002⟩).names, shadowing.interner.Holds label := by
    intro _ _ _
    decide +kernel
  have accepted : Model.ofCorpus .standard (Interner.new.holdAll ["Node", "next"])
        (.ofFragments [.bare ⟨0x20000000⟩ none [],
          .withAttr ⟨0x20000000⟩ ⟨0x30000002⟩ (.wrapped .nullable (.leaf ⟨0x20000000⟩))])
      = .ok (.ok ⟨[⟨⟨⟨0x20000000⟩, .empty, .unset, [], [.unspecified], .empty⟩,
        .interface none [⟨.attr ⟨0x30000002⟩
          (.wrapped .nullable (.leaf (.definition ⟨⟨0x20000000⟩, 0⟩))) .empty,
          .empty, .empty, ⟨.unspecified, true⟩⟩] []⟩]⟩) :=
    (Model.ofCorpus_of_ordered _ _ _ [0] [] (by decide +kernel) (by decide +kernel)
      (by decide +kernel) (by decide +kernel)).trans (by decide +kernel)
  have resolved : (shadowing.resolveType ⟨⟨0x20000000⟩, "Node", .empty⟩ (.attr ⟨0x30000002⟩)
      RawType.nested).run [] = .ok (ResolvedType.nested, [⟨⟨0x20000000⟩, "Node",
        .unresolvedReference "Missing" "attribute `next`" .empty⟩]) := by
    decide +kernel
  obtain ⟨type, problems, same, renders⟩ := renders_of_held.1 _ _ _ _ held described []
  obtain ⟨rfl, -⟩ := Prod.mk.inj (Except.ok.inj (same.symm.trans resolved))
  obtain ⟨scope, -, -, all⟩ := renders_of_held.2 _ _ _ _ accepted
  obtain ⟨together, same, each⟩ := all _ (List.mem_singleton_self _)
  exact ⟨held, described, resolved, renders, accepted, scope, together, same, each⟩

end WebIdl
