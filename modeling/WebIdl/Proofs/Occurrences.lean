import WebIdl.Proofs.Reporting

namespace WebIdl

/-- A name in a body at a place where it stands for a type or for a definition. -/
inductive Occurrence where
  | type (position : Position) (name : Identifier)
  | reference (expected : Kind) (position : Position) (name : Identifier)

namespace Occurrence

def name : Occurrence → Identifier
  | .type _ name | .reference _ _ name => name

def position : Occurrence → Position
  | .type position _ | .reference _ position _ => position

end Occurrence

def TypeExpr.occurrences (position : Position) (type : RawType) : List Occurrence :=
  type.leaves.map (.type position)

def Argument.occurrences (position : Identifier → Position) (argument : Argument RawType) :
    List Occurrence :=
  argument.type.occurrences (position argument.name)

def Member.Shape.occurrences : Member.Shape RawType → List Occurrence
  | .attr name type _ => type.occurrences (.attr name)
  | .operation name returnType arguments _ =>
    returnType.occurrences (.operationReturn name)
      ++ arguments.flatMap (·.occurrences (.operationArgument name))
  | .constant name type _ => type.occurrences (.constant name)
  | .constructor arguments => arguments.flatMap (·.occurrences .constructorArgument)

def Member.occurrences (member : Member RawType) : List Occurrence := member.shape.occurrences

def DictionaryMember.occurrences (member : DictionaryMember RawType) : List Occurrence :=
  member.type.occurrences (.dictionaryMember member.name)

/-- Everything that a body refers to, in the order parent, included mixins, types. -/
def Body.occurrences : RawBody → List Occurrence
  | .interface inherited members includes =>
    inherited.toList.map (.reference .interface .inheritance)
      ++ (includes.map (.reference .interfaceMixin .includes) ++ members.flatMap (·.occurrences))
  | .interfaceMixin members | .namespaceObject members | .callbackInterface members =>
    members.flatMap (·.occurrences)
  | .callbackFunction returnType arguments =>
    returnType.occurrences .callbackReturn ++ arguments.flatMap (·.occurrences .callbackArgument)
  | .dictionary inherited members =>
    inherited.toList.map (.reference .dictionary .inheritance) ++ members.flatMap (·.occurrences)
  | .enumeration _ => []
  | .typedef target => target.occurrences .typedefTarget

section
variable {held : Occurrence → Prop} {problems : Occurrence → List Problem}
  {name : Position → Identifier → Reporting Referent} {referent : Identifier → Referent}
  {reference : Kind → Position → Identifier → Reporting (Option Handle)}
  {handle? : Kind → Identifier → Option Handle}

open Reporting (Adds)

variable (eachName : ∀ position leaf, Adds (held (.type position leaf)) (name position leaf)
  (referent leaf) (problems (.type position leaf)))

include eachName

theorem adds_type (position : Position) (type : RawType) :
    Adds (∀ occurrence ∈ type.occurrences position, held occurrence)
      (type.mapM (name position)) (type.map referent)
      ((type.occurrences position).flatMap problems) := by
  unfold TypeExpr.occurrences
  simp only [List.forall_mem_map, List.flatMap_map]
  induction type using TypeExpr.induction with
  | leaf leaf =>
    simp only [TypeExpr.leaves, List.flatMap_cons, List.flatMap_nil, List.append_nil]
    exact ((eachName position leaf).map TypeExpr.leaf).mono fun all => all leaf (by simp)
  | wrapped wrapper inner ih => exact ih.map (TypeExpr.wrapped wrapper)
  | record key value ihKey ihValue =>
    simp only [TypeExpr.leaves, List.flatMap_append, List.forall_mem_append]
    have pair : Adds _ (key.mapM (name position) >>= fun key => do
        return TypeExpr.record key (← value.mapM (name position))) _ _ :=
      ihKey.bind (ihValue.map (TypeExpr.record (key.map referent)))
    exact pair
  | union members ih =>
    have all := (Adds.mapM ih).map TypeExpr.union
    simp only [TypeExpr.leaves, TypeExpr.leavesList_eq_flatMap, TypeExpr.mapM,
      TypeExpr.mapMList_eq_mapM, TypeExpr.map, TypeExpr.mapList_eq_map, List.flatMap_assoc,
      List.forall_mem_flatMap]
    exact all

theorem adds_argument (position : Identifier → Position) (argument : Argument RawType) :
    Adds (∀ occurrence ∈ argument.occurrences position, held occurrence)
      (argument.mapTypeM position fun position type => type.mapM (name position))
      (argument.mapType (·.map referent)) ((argument.occurrences position).flatMap problems) := by
  exact (adds_type eachName (position argument.name) argument.type).map
    fun type => ({ argument with type } : Argument ResolvedType)

theorem adds_arguments (position : Identifier → Position) (arguments : List (Argument RawType)) :
    Adds (∀ occurrence ∈ arguments.flatMap (·.occurrences position), held occurrence)
      (arguments.mapM (·.mapTypeM position fun position type => type.mapM (name position)))
      (arguments.map (·.mapType (·.map referent)))
      ((arguments.flatMap (·.occurrences position)).flatMap problems) := by
  rw [List.flatMap_assoc]
  simp only [List.forall_mem_flatMap]
  exact Adds.mapM fun argument _ => adds_argument eachName position argument

theorem adds_shape (shape : Member.Shape RawType) :
    Adds (∀ occurrence ∈ shape.occurrences, held occurrence)
      (shape.mapTypesM fun position type => type.mapM (name position))
      (shape.mapTypes (·.map referent)) (shape.occurrences.flatMap problems) := by
  cases shape with
  | attr memberName type qualifiers =>
    exact (adds_type eachName (.attr memberName) type).map
      fun type => Member.Shape.attr memberName type qualifiers
  | operation memberName returnType arguments qualifiers =>
    have rest := (adds_arguments eachName (.operationArgument memberName) arguments).map
      fun arguments => Member.Shape.operation memberName (returnType.map referent) arguments qualifiers
    simp only [Member.Shape.occurrences, List.forall_mem_append, List.flatMap_append]
    exact (adds_type eachName (.operationReturn memberName) returnType).bind rest
  | constant memberName type value =>
    exact (adds_type eachName (.constant memberName) type).map
      fun type => Member.Shape.constant memberName type value
  | constructor arguments =>
    exact (adds_arguments eachName .constructorArgument arguments).map Member.Shape.constructor

theorem adds_members (members : List (Member RawType)) :
    Adds (∀ occurrence ∈ members.flatMap (·.occurrences), held occurrence)
      (members.mapM (·.mapTypesM fun position type => type.mapM (name position)))
      (members.map (·.mapTypes (·.map referent)))
      ((members.flatMap (·.occurrences)).flatMap problems) := by
  rw [List.flatMap_assoc]
  simp only [List.forall_mem_flatMap]
  exact Adds.mapM fun member _ => (adds_shape eachName member.shape).map
    fun shape => ({ member with shape } : Member ResolvedType)

theorem adds_dictionaryMembers (members : List (DictionaryMember RawType)) :
    Adds (∀ occurrence ∈ members.flatMap (·.occurrences), held occurrence)
      (members.mapM (·.mapTypeM fun position type => type.mapM (name position)))
      (members.map (·.mapType (·.map referent)))
      ((members.flatMap (·.occurrences)).flatMap problems) := by
  rw [List.flatMap_assoc]
  simp only [List.forall_mem_flatMap]
  exact Adds.mapM fun member _ => (adds_type eachName (.dictionaryMember member.name) member.type).map
    fun type => ({ member with type } : DictionaryMember ResolvedType)

omit eachName in
theorem adds_parent (eachReference : ∀ expected position stated,
      Adds (held (.reference expected position stated)) (reference expected position stated)
        (handle? expected stated) (problems (.reference expected position stated)))
    (expected : Kind) (inherited : Option Identifier) :
    Adds (∀ occurrence ∈ inherited.toList.map (.reference expected .inheritance), held occurrence)
      (inherited.bindM (reference expected .inheritance)) (inherited.bind (handle? expected))
      ((inherited.toList.map (.reference expected .inheritance)).flatMap problems) := by
  rw [List.flatMap_map]
  refine (Adds.bindM fun stated _ => eachReference expected .inheritance stated).mono ?_
  exact fun all stated member => all _ (List.mem_map_of_mem (by simpa using member))

/-- A body is rewritten occurrence by occurrence, and the problems are those of its occurrences. -/
theorem adds_body (eachReference : ∀ expected position stated,
      Adds (held (.reference expected position stated)) (reference expected position stated)
        (handle? expected stated) (problems (.reference expected position stated)))
    (body : RawBody) :
    Adds (∀ occurrence ∈ body.occurrences, held occurrence)
      (body.mapM reference fun position type => type.mapM (name position))
      (body.map handle? (·.map referent)) (body.occurrences.flatMap problems) := by
  cases body with
  | interface inherited members includes =>
    have mixins : Adds (∀ occurrence ∈ includes.map (.reference .interfaceMixin .includes),
          held occurrence)
        (includes.filterMapM (reference .interfaceMixin .includes))
        (includes.filterMap (handle? .interfaceMixin))
        ((includes.map (.reference .interfaceMixin .includes)).flatMap problems) := by
      rw [List.flatMap_map]
      simp only [List.forall_mem_map]
      exact Adds.filterMapM fun stated _ => eachReference .interfaceMixin .includes stated
    have rest : Adds _ (includes.filterMapM (reference .interfaceMixin .includes) >>=
        fun includes => do
          return Body.interface (inherited.bind (handle? .interface))
            (← members.mapM (·.mapTypesM fun position type => type.mapM (name position)))
            includes) _ _ :=
      mixins.bind ((adds_members eachName members).map
        (Body.interface (inherited.bind (handle? .interface)) ·
          (includes.filterMap (handle? .interfaceMixin))))
    simp only [Body.occurrences, List.forall_mem_append, List.flatMap_append]
    exact (adds_parent eachReference .interface inherited).bind rest
  | interfaceMixin members => exact (adds_members eachName members).map Body.interfaceMixin
  | namespaceObject members => exact (adds_members eachName members).map Body.namespaceObject
  | callbackInterface members => exact (adds_members eachName members).map Body.callbackInterface
  | callbackFunction returnType arguments =>
    have rest := (adds_arguments eachName .callbackArgument arguments).map fun arguments =>
      (Body.callbackFunction (returnType.map referent) arguments : Body Handle ResolvedType)
    simp only [Body.occurrences, List.forall_mem_append, List.flatMap_append]
    exact (adds_type eachName .callbackReturn returnType).bind rest
  | dictionary inherited members =>
    have rest := (adds_dictionaryMembers eachName members).map fun members =>
      Body.dictionary (inherited.bind (handle? .dictionary)) members
    simp only [Body.occurrences, List.forall_mem_append, List.flatMap_append]
    exact (adds_parent eachReference .dictionary inherited).bind rest
  | enumeration values => exact (Adds.pure (Body.enumeration values)).mono fun _ => trivial
  | typedef target => exact (adds_type eachName .typedefTarget target).map Body.typedef

end

namespace Occurrence

def Satisfies (type : Identifier → Prop) (reference : Kind → Identifier → Prop) :
    Occurrence → Prop
  | .type _ name => type name
  | .reference expected _ name => reference expected name

end Occurrence

section
variable {type : Identifier → Prop} {reference : Kind → Identifier → Prop}

theorem TypeExpr.forall_occurrences_iff {position : Position} {expression : RawType} :
    (∀ occurrence ∈ expression.occurrences position, occurrence.Satisfies type reference)
      ↔ ∀ name ∈ expression.leaves, type name := by
  simp [TypeExpr.occurrences, Occurrence.Satisfies]

theorem Argument.forall_occurrences_iff {position : Identifier → Position}
    {argument : Argument RawType} :
    (∀ occurrence ∈ argument.occurrences position, occurrence.Satisfies type reference)
      ↔ ∀ name ∈ argument.type.leaves, type name :=
  TypeExpr.forall_occurrences_iff

theorem Member.forall_occurrences_iff {member : Member RawType} :
    (∀ occurrence ∈ member.occurrences, occurrence.Satisfies type reference)
      ↔ ∀ expression ∈ member.types, ∀ name ∈ expression.leaves, type name := by
  obtain ⟨shape, _, _, _⟩ := member
  cases shape <;>
    simp only [Member.occurrences, Shape.occurrences, types, List.forall_mem_append,
      List.forall_mem_flatMap, List.forall_mem_cons, List.forall_mem_map,
      TypeExpr.forall_occurrences_iff, Argument.forall_occurrences_iff, List.not_mem_nil,
      false_implies, implies_true, and_true]

theorem DictionaryMember.forall_occurrences_iff {member : DictionaryMember RawType} :
    (∀ occurrence ∈ member.occurrences, occurrence.Satisfies type reference)
      ↔ ∀ name ∈ member.type.leaves, type name :=
  TypeExpr.forall_occurrences_iff

theorem Occurrence.satisfies_reference {expected : Kind} {position : Position} {name : Identifier} :
    (Occurrence.reference expected position name).Satisfies type reference
      ↔ reference expected name := .rfl

theorem Body.forall_occurrences_iff {body : RawBody} :
    (∀ occurrence ∈ body.occurrences, occurrence.Satisfies type reference) ↔
      (∀ parent ∈ body.inherited?, reference body.kind parent)
        ∧ (∀ mixin ∈ body.includes, reference .interfaceMixin mixin)
        ∧ ∀ expression ∈ body.types, ∀ name ∈ expression.leaves, type name := by
  cases body <;>
    simp only [occurrences, inherited?, includes, types, kind, members, List.forall_mem_append,
      List.forall_mem_flatMap, List.forall_mem_map, List.forall_mem_cons, Option.mem_toList,
      Option.mem_def,
      Occurrence.satisfies_reference, TypeExpr.forall_occurrences_iff,
      Argument.forall_occurrences_iff, Member.forall_occurrences_iff,
      DictionaryMember.forall_occurrences_iff, List.not_mem_nil, reduceCtorEq,
      false_implies, implies_true, and_true, true_and]

end

end WebIdl
