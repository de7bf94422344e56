import Mathlib.Data.List.Basic
import WebIdl.Model
import WebIdl.Proofs.Names

namespace WebIdl

variable {ρ ρ' ρ'' τ τ' τ'' : Type}

def Origin.rename (label : Identifier → Identifier) (origin : Origin) : Origin :=
  { origin with component := ⟨label origin.component.name⟩ }

namespace Argument

def rewrite (label : Identifier → Identifier) (type : τ → τ') (argument : Argument τ) :
    Argument τ' :=
  { argument with name := label argument.name, type := type argument.type }

end Argument

namespace Member

def Shape.rewrite (label : Identifier → Identifier) (type : τ → τ') : Shape τ → Shape τ'
  | .attr name valueType qualifiers => .attr (label name) (type valueType) qualifiers
  | .operation name returnType arguments qualifiers =>
    .operation (label name) (type returnType) (arguments.map (·.rewrite label type)) qualifiers
  | .constant name valueType value => .constant (label name) (type valueType) value
  | .constructor arguments => .constructor (arguments.map (·.rewrite label type))

def rewrite (label : Identifier → Identifier) (type : τ → τ') (member : Member τ) : Member τ' :=
  { member with shape := member.shape.rewrite label type, origin := member.origin.rename label }

theorem mapTypes_eq_rewrite (type : τ → τ') (member : Member τ) :
    member.mapTypes type = member.rewrite id type := by
  obtain ⟨shape, _, _, _⟩ := member
  cases shape <;> rfl

theorem rewrite_rewrite (label label' : Identifier → Identifier) (type : τ → τ') (type' : τ' → τ'')
    (member : Member τ) :
    (member.rewrite label type).rewrite label' type'
      = member.rewrite (fun name => label' (label name)) (fun given => type' (type given)) := by
  obtain ⟨shape, _, _, _⟩ := member
  cases shape <;>
    simp [rewrite, Shape.rewrite, Argument.rewrite, Origin.rename, Function.comp_def]

theorem rewrite_congr {label label' : Identifier → Identifier} {type type' : τ → τ'}
    {member : Member τ} (sameLabels : ∀ name ∈ member.labels, label name = label' name)
    (sameTypes : ∀ given ∈ member.types, type given = type' given) :
    member.rewrite label type = member.rewrite label' type' := by
  obtain ⟨shape, _, _, _⟩ := member
  cases shape <;>
    simp_all [rewrite, Shape.rewrite, Argument.rewrite, Origin.rename, labels, types, name?,
      arguments]

end Member

namespace DictionaryMember

def rewrite (label : Identifier → Identifier) (type : τ → τ') (member : DictionaryMember τ) :
    DictionaryMember τ' :=
  { member with
    name := label member.name
    type := type member.type
    origin := member.origin.rename label }

theorem rewrite_congr {label label' : Identifier → Identifier} {type type' : τ → τ'}
    {member : DictionaryMember τ} (sameLabels : ∀ name ∈ member.labels, label name = label' name)
    (sameType : type member.type = type' member.type) :
    member.rewrite label type = member.rewrite label' type' := by
  have sameName := sameLabels member.name (by simp [labels])
  have sameComponent := sameLabels member.origin.component.name (by simp [labels])
  simp only [rewrite, Origin.rename, sameName, sameComponent, sameType]

end DictionaryMember

namespace Body

/-- Rewrites everything in a body that depends on handles: the names that it gives, its references
    to definitions and its types. -/
def rewrite (label : Identifier → Identifier) (reference : Kind → ρ → Option ρ') (type : τ → τ') :
    Body ρ τ → Body ρ' τ'
  | .interface inherited members includes =>
    .interface (inherited.bind (reference .interface)) (members.map (·.rewrite label type))
      (includes.filterMap (reference .interfaceMixin))
  | .interfaceMixin members => .interfaceMixin (members.map (·.rewrite label type))
  | .namespaceObject members => .namespaceObject (members.map (·.rewrite label type))
  | .callbackInterface members => .callbackInterface (members.map (·.rewrite label type))
  | .callbackFunction returnType arguments =>
    .callbackFunction (type returnType) (arguments.map (·.rewrite label type))
  | .dictionary inherited members =>
    .dictionary (inherited.bind (reference .dictionary)) (members.map (·.rewrite label type))
  | .enumeration values => .enumeration values
  | .typedef target => .typedef (type target)

theorem map_eq_rewrite (reference : Kind → ρ → Option ρ') (type : τ → τ') (body : Body ρ τ) :
    body.map reference type = body.rewrite id reference type := by
  have sameMembers : (Member.mapTypes type) = Member.rewrite id type :=
    funext (Member.mapTypes_eq_rewrite type)
  cases body <;> simp only [map, rewrite, sameMembers] <;> rfl

theorem rewrite_rewrite (label label' : Identifier → Identifier) (reference : Kind → ρ → Option ρ')
    (reference' : Kind → ρ' → Option ρ'') (type : τ → τ') (type' : τ' → τ'') (body : Body ρ τ) :
    (body.rewrite label reference type).rewrite label' reference' type'
      = body.rewrite (fun name => label' (label name))
        (fun kind stated => (reference kind stated).bind (reference' kind))
        (fun given => type' (type given)) := by
  cases body <;>
    simp [rewrite, Member.rewrite_rewrite, Argument.rewrite, DictionaryMember.rewrite,
      Origin.rename, Function.comp_def, Option.bind_assoc, List.filterMap_filterMap]

theorem rewrite_congr {label label' : Identifier → Identifier}
    {reference reference' : Kind → ρ → Option ρ'} {type type' : τ → τ'} {body : Body ρ τ}
    (sameLabels : ∀ name ∈ body.labels, label name = label' name)
    (sameParent : ∀ parent ∈ body.inherited?, reference body.kind parent = reference' body.kind parent)
    (sameMixins : ∀ mixin ∈ body.includes,
      reference .interfaceMixin mixin = reference' .interfaceMixin mixin)
    (sameTypes : ∀ given ∈ body.types, type given = type' given) :
    body.rewrite label reference type = body.rewrite label' reference' type' := by
  have sameMembers (members : List (Member τ))
      (sameLabels : ∀ name ∈ members.flatMap (·.labels), label name = label' name)
      (sameTypes : ∀ given ∈ members.flatMap (·.types), type given = type' given) :
      members.map (·.rewrite label type) = members.map (·.rewrite label' type') :=
    List.map_congr_left fun member isMember => Member.rewrite_congr
      (fun name isLabel => sameLabels name (List.mem_flatMap.mpr ⟨member, isMember, isLabel⟩))
      (fun given isType => sameTypes given (List.mem_flatMap.mpr ⟨member, isMember, isType⟩))
  cases body with
  | interface inherited members includes =>
    have parent : inherited.bind (reference .interface) = inherited.bind (reference' .interface) :=
      Option.bind_congr sameParent
    have mixins : includes.filterMap (reference .interfaceMixin)
        = includes.filterMap (reference' .interfaceMixin) := List.filterMap_congr sameMixins
    simp only [rewrite, parent, mixins, sameMembers members sameLabels sameTypes]
  | interfaceMixin members | namespaceObject members | callbackInterface members =>
    simp only [rewrite, sameMembers members sameLabels sameTypes]
  | callbackFunction returnType arguments =>
    simp_all [rewrite, Argument.rewrite, labels, types]
  | dictionary inherited members =>
    have parent : inherited.bind (reference .dictionary) = inherited.bind (reference' .dictionary) :=
      Option.bind_congr sameParent
    refine congrArg₂ _ parent (List.map_congr_left fun member isMember => ?_)
    refine DictionaryMember.rewrite_congr (fun name isLabel => ?_) ?_
    · exact sameLabels name (List.mem_flatMap.mpr ⟨member, isMember, isLabel⟩)
    · exact sameTypes member.type (List.mem_map_of_mem isMember)
  | enumeration values => rfl
  | typedef target => simp_all [rewrite, types]

variable (label : Identifier → Identifier) (reference : Kind → ρ → Option ρ') (type : τ → τ')

@[simp] theorem kind_rewrite (body : Body ρ τ) :
    (body.rewrite label reference type).kind = body.kind := by
  cases body <;> rfl

theorem labels_rewrite (body : Body ρ τ) :
    (body.rewrite label reference type).labels = body.labels.map label := by
  have sameMembers (member : Member τ) :
      (member.rewrite label type).labels = member.labels.map label := by
    obtain ⟨shape, _, _, _⟩ := member
    cases shape <;>
      simp [Member.labels, Member.rewrite, Member.Shape.rewrite, Member.name?, Member.arguments,
        Argument.rewrite, Origin.rename]
  cases body <;>
    simp [labels, rewrite, members, Argument.rewrite, DictionaryMember.rewrite,
      DictionaryMember.labels, Origin.rename, List.flatMap_map, List.map_flatMap, sameMembers]

theorem types_rewrite (body : Body ρ τ) :
    (body.rewrite label reference type).types = body.types.map type := by
  have sameMembers (member : Member τ) :
      (member.rewrite label type).types = member.types.map type := by
    obtain ⟨shape, _, _, _⟩ := member
    cases shape <;>
      simp [Member.types, Member.rewrite, Member.Shape.rewrite, Argument.rewrite]
  cases body <;>
    simp [types, rewrite, members, Argument.rewrite, DictionaryMember.rewrite, List.flatMap_map,
      List.map_flatMap, sameMembers]

def rename (label : Identifier → Identifier) (body : RawBody) : RawBody :=
  body.rewrite label (fun _ name => some (label name)) (·.map label)

theorem kind_rename (body : RawBody) : (body.rename label).kind = body.kind :=
  kind_rewrite label _ _ body

theorem inherited?_rename (body : RawBody) :
    (body.rename label).inherited? = body.inherited?.map label := by
  cases body with
  | interface inherited _ _ | dictionary inherited _ => cases inherited <;> rfl
  | _ => rfl

theorem includes_rename (body : RawBody) :
    (body.rename label).includes = body.includes.map label := by
  cases body with
  | interface _ _ includes => exact congrFun List.filterMap_eq_map' includes
  | _ => rfl

theorem names_rename (body : RawBody) : (body.rename label).names = body.names.map label := by
  have sameTypes : (body.rename label).types.flatMap (·.leaves)
      = (body.types.flatMap (·.leaves)).map label := by
    rw [rename, types_rewrite, List.flatMap_map, List.map_flatMap]
    simp only [TypeExpr.leaves_map]
  have sameLabels : (body.rename label).labels = body.labels.map label := labels_rewrite ..
  simp only [names, inherited?_rename, includes_rename, sameLabels, sameTypes, List.map_append,
    Option.toList_map]

theorem rename_congr {label label' : Identifier → Identifier} {body : RawBody}
    (same : ∀ name ∈ body.names, label name = label' name) :
    body.rename label = body.rename label' := by
  simp only [mem_names_iff] at same
  apply rewrite_congr
  · exact fun name isLabel => same name (.inr (.inr (.inl isLabel)))
  · exact fun parent stated => congrArg some (same parent (.inl stated))
  · exact fun mixin stated => congrArg some (same mixin (.inr (.inl stated)))
  · exact fun given isType => TypeExpr.map_congr fun name isLeaf =>
      same name (.inr (.inr (.inr ⟨given, isType, isLeaf⟩)))

end Body

namespace Fragment

def rename (label : Identifier → Identifier) (fragment : Fragment) : Fragment :=
  { fragment with
    identifier := label fragment.identifier
    body := fragment.body.rename label
    component := ⟨label fragment.component.name⟩ }

@[simp] theorem kind_rename (label : Identifier → Identifier) (fragment : Fragment) :
    (fragment.rename label).kind = fragment.kind := fragment.body.kind_rename label

theorem names_rename (label : Identifier → Identifier) (fragment : Fragment) :
    (fragment.rename label).names = fragment.names.map label := by
  have body : (fragment.rename label).body.names = fragment.body.names.map label :=
    fragment.body.names_rename label
  rw [names, body]
  rfl

theorem rename_congr {label label' : Identifier → Identifier} {fragment : Fragment}
    (same : ∀ name ∈ fragment.names, label name = label' name) :
    fragment.rename label = fragment.rename label' := by
  simp only [names, List.forall_mem_cons] at same
  obtain ⟨identifier, component, body⟩ := same
  rw [rename, rename, identifier, component, Body.rename_congr body]

end Fragment

def Handle.rename (label : Identifier → Identifier) (handle : Handle) : Handle :=
  { handle with identifier := label handle.identifier }

def Referent.rename (label : Identifier → Identifier) : Referent → Referent
  | .builtin type => .builtin type
  | .definition handle => .definition (handle.rename label)

def Declaration.rename (label : Identifier → Identifier) (declaration : Declaration) :
    Declaration :=
  { declaration with
    identifier := label declaration.identifier
    components := declaration.components.map fun component => ⟨label component.name⟩ }

def Definition.rename (label : Identifier → Identifier) (definition : RawDefinition) :
    RawDefinition where
  declaration := definition.declaration.rename label
  body := definition.body.rename label

namespace ResolvedDefinition

def rename (label : Identifier → Identifier) (definition : ResolvedDefinition) :
    ResolvedDefinition where
  declaration := definition.declaration.rename label
  body := definition.body.rewrite label (fun _ handle => some (handle.rename label))
    (·.map (·.rename label))

def names (definition : ResolvedDefinition) : List Identifier :=
  definition.identifier :: (definition.declaration.components.map (·.name)
    ++ definition.body.labels ++ definition.handles.map (·.identifier))

theorem rename_congr {label label' : Identifier → Identifier} {definition : ResolvedDefinition}
    (same : ∀ name ∈ definition.names, label name = label' name) :
    definition.rename label = definition.rename label' := by
  simp only [names, List.forall_mem_cons, List.forall_mem_append, List.forall_mem_map] at same
  obtain ⟨identifier, ⟨components, labels⟩, handles⟩ := same
  have reference {handle : Handle} (isHandle : handle ∈ definition.handles) :
      handle.rename label = handle.rename label' := by
    rw [Handle.rename, Handle.rename, handles handle isHandle]
  have declaration : definition.declaration.rename label = definition.declaration.rename label' := by
    have sameComponents : definition.declaration.components.map (fun component =>
          (⟨label component.name⟩ : Component))
        = definition.declaration.components.map fun component => ⟨label' component.name⟩ :=
      List.map_congr_left fun component member => by rw [components component member]
    have sameIdentifier : label definition.declaration.identifier
        = label' definition.declaration.identifier := identifier
    rw [Declaration.rename, Declaration.rename, sameComponents, sameIdentifier]
  rw [rename, rename, declaration]
  refine congrArg _ (Body.rewrite_congr labels (fun handle isParent => ?_) (fun handle isMixin => ?_)
    fun type isType => TypeExpr.map_congr fun referent isLeaf => ?_)
  · exact congrArg some (reference (by simp_all [ResolvedDefinition.handles]))
  · exact congrArg some (reference (by simp_all [ResolvedDefinition.handles]))
  · cases referent with
    | builtin type => rfl
    | definition handle =>
      refine congrArg Referent.definition (reference ?_)
      refine List.mem_append_right _ (List.mem_flatMap.mpr ⟨type, isType, ?_⟩)
      exact List.mem_filterMap.mpr ⟨_, isLeaf, rfl⟩

end ResolvedDefinition

/-- Both interners hold the name, each under its own handle. -/
def SpelledAlike (one other : Interner) (label : Identifier → Identifier) (name : Identifier) :
    Prop :=
  ∃ spelling, one.spelling? name = some spelling ∧ other.spelling? (label name) = some spelling

namespace SpelledAlike

variable {one other : Interner} {label : Identifier → Identifier} {name : Identifier}

theorem spell_eq (alike : SpelledAlike one other label name) :
    other.spell (label name) = one.spell name := by
  obtain ⟨spelling, held, held'⟩ := alike
  rw [Interner.spell, Interner.spell, held, held']

theorem holds (alike : SpelledAlike one other label name) : one.Holds name := by
  obtain ⟨spelling, held, -⟩ := alike
  rw [Interner.Holds, held]
  rfl

theorem holds_label (alike : SpelledAlike one other label name) : other.Holds (label name) := by
  obtain ⟨spelling, -, held⟩ := alike
  rw [Interner.Holds, held]
  rfl

theorem inj {name' : Identifier} (alike : SpelledAlike one other label name)
    (alike' : SpelledAlike one other label name') (same : label name = label name') :
    name = name' :=
  alike.holds.spell_inj alike'.holds (by rw [← alike.spell_eq, same, alike'.spell_eq])

end SpelledAlike

def Problem.rename (label : Identifier → Identifier) (problem : Problem) : Problem :=
  { problem with identifier := label problem.identifier }

def Report.rename (label : Identifier → Identifier) (report : Report) : Report :=
  ⟨report.problems.map (·.rename label)⟩

theorem Report.rename_congr {label label' : Identifier → Identifier} {report : Report}
    (same : ∀ problem ∈ report.problems, label problem.identifier = label' problem.identifier) :
    report.rename label = report.rename label' := by
  refine congrArg mk (List.map_congr_left fun problem member => ?_)
  rw [Problem.rename, Problem.rename, same problem member]

def Model.rename (label : Identifier → Identifier) (model : Model) : Model :=
  ⟨model.definitions.map (·.rename label)⟩

theorem Model.rename_congr {label label' : Identifier → Identifier} {model : Model}
    (same : ∀ definition ∈ model.definitions, ∀ name ∈ definition.names,
      label name = label' name) : model.rename label = model.rename label' :=
  congrArg mk (List.map_congr_left fun definition member =>
    ResolvedDefinition.rename_congr (same definition member))

end WebIdl
