import WebIdl.Definition

namespace WebIdl

variable {α β γ ρ ρ' ρ'' τ τ' τ'' : Type}

namespace TypeExpr

mutual

def map (f : α → β) : TypeExpr α → TypeExpr β
  | .leaf name => .leaf (f name)
  | .wrapped wrapper inner => .wrapped wrapper (inner.map f)
  | .record key value => .record (key.map f) (value.map f)
  | .union members => .union (mapList f members)

def mapList (f : α → β) : List (TypeExpr α) → List (TypeExpr β)
  | [] => []
  | type :: types => type.map f :: mapList f types

end

@[simp] theorem mapList_eq_map (f : α → β) (types : List (TypeExpr α)) :
    mapList f types = types.map (map f) := by
  induction types with
  | nil => rfl
  | cons type types ih => simp [mapList, ih]

theorem leaves_map (f : α → β) (type : TypeExpr α) : (type.map f).leaves = type.leaves.map f := by
  induction type with
  | leaf name => rfl
  | wrapped wrapper inner ih => exact ih
  | record key value ihKey ihValue => simp only [map, leaves, ihKey, ihValue, List.map_append]
  | union members ih =>
    simp only [map, leaves, mapList_eq_map, leavesList_eq_flatMap, List.flatMap_map, List.map_flatMap]
    rw [List.flatMap_def, List.flatMap_def, List.map_congr_left ih]

theorem map_id (type : TypeExpr α) : type.map id = type := by
  induction type with
  | leaf name => rfl
  | wrapped wrapper inner ih => simp only [map, ih]
  | record key value ihKey ihValue => simp only [map, ihKey, ihValue]
  | union members ih =>
    rw [map, mapList_eq_map, List.map_congr_left ih, List.map_id']

theorem map_map (f : α → β) (g : β → γ) (type : TypeExpr α) :
    (type.map f).map g = type.map (g ∘ f) := by
  induction type with
  | leaf name => rfl
  | wrapped wrapper inner ih => simp only [map, ih]
  | record key value ihKey ihValue => simp only [map, ihKey, ihValue]
  | union members ih =>
    simp only [map, mapList_eq_map, List.map_map]
    exact congrArg _ (List.map_congr_left ih)

theorem map_congr {f g : α → β} {type : TypeExpr α} (same : ∀ name ∈ type.leaves, f name = g name) :
    type.map f = type.map g := by
  induction type with
  | leaf name => exact congrArg _ (same name (by simp [leaves]))
  | wrapped wrapper inner ih => exact congrArg _ (ih same)
  | record key value ihKey ihValue =>
    simp only [leaves, List.mem_append] at same
    simp only [map]
    rw [ihKey fun name member => same name (.inl member),
      ihValue fun name member => same name (.inr member)]
  | union members ih =>
    simp only [leaves, leavesList_eq_flatMap, List.mem_flatMap] at same
    simp only [map, mapList_eq_map]
    refine congrArg _ (List.map_congr_left fun member inside => ih member inside ?_)
    exact fun name leaf => same name ⟨member, inside, leaf⟩

end TypeExpr

namespace Argument

def mapType (f : τ → τ') (argument : Argument τ) : Argument τ' :=
  { argument with type := f argument.type }

end Argument

namespace Member

def Shape.mapTypes (f : τ → τ') : Shape τ → Shape τ'
  | .attr name type qualifiers => .attr name (f type) qualifiers
  | .operation name returnType arguments qualifiers =>
    .operation name (f returnType) (arguments.map (·.mapType f)) qualifiers
  | .constant name type value => .constant name (f type) value
  | .constructor arguments => .constructor (arguments.map (·.mapType f))

def mapTypes (f : τ → τ') (member : Member τ) : Member τ' :=
  { member with shape := member.shape.mapTypes f }

theorem types_mapTypes (f : τ → τ') (member : Member τ) :
    (member.mapTypes f).types = member.types.map f := by
  obtain ⟨shape, _, _, _⟩ := member
  cases shape <;>
    simp [types, mapTypes, Shape.mapTypes, Argument.mapType, Function.comp_def]

end Member

namespace DictionaryMember

def mapType (f : τ → τ') (member : DictionaryMember τ) : DictionaryMember τ' :=
  { member with type := f member.type }

end DictionaryMember

namespace Body

/-- The same contents with every reference and every type rewritten. A reference is left out if
    `reference` gives nothing for it. -/
def map (reference : Kind → ρ → Option ρ') (type : τ → τ') : Body ρ τ → Body ρ' τ'
  | .interface inherited members includes =>
    .interface (inherited.bind (reference .interface)) (members.map (·.mapTypes type))
      (includes.filterMap (reference .interfaceMixin))
  | .interfaceMixin members => .interfaceMixin (members.map (·.mapTypes type))
  | .namespaceObject members => .namespaceObject (members.map (·.mapTypes type))
  | .callbackInterface members => .callbackInterface (members.map (·.mapTypes type))
  | .callbackFunction returnType arguments =>
    .callbackFunction (type returnType) (arguments.map (·.mapType type))
  | .dictionary inherited members =>
    .dictionary (inherited.bind (reference .dictionary)) (members.map (·.mapType type))
  | .enumeration values => .enumeration values
  | .typedef target => .typedef (type target)

variable (reference : Kind → ρ → Option ρ') (type : τ → τ')

@[simp] theorem kind_map (body : Body ρ τ) : (body.map reference type).kind = body.kind := by
  cases body <;> rfl

@[simp] theorem members_map (body : Body ρ τ) :
    (body.map reference type).members = body.members.map (·.mapTypes type) := by
  cases body <;> rfl

@[simp] theorem dictionaryMembers_map (body : Body ρ τ) :
    (body.map reference type).dictionaryMembers = body.dictionaryMembers.map (·.mapType type) := by
  cases body <;> rfl

@[simp] theorem includes_map (body : Body ρ τ) :
    (body.map reference type).includes = body.includes.filterMap (reference .interfaceMixin) := by
  cases body <;> rfl

@[simp] theorem inherited?_map (body : Body ρ τ) :
    (body.map reference type).inherited? = body.inherited?.bind (reference body.kind) := by
  cases body <;> rfl

theorem types_map (body : Body ρ τ) : (body.map reference type).types = body.types.map type := by
  cases body <;>
    simp [types, map, members, Argument.mapType, DictionaryMember.mapType, Function.comp_def,
      Member.types_mapTypes, List.map_flatMap, List.flatMap_map]

end Body

end WebIdl
