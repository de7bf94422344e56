import WebIdl.Proofs.RenamedCorpus
import WebIdl.Proofs.Scoping

namespace WebIdl

namespace Inheritance

section
variable {α β : Type} [DecidableEq α] [DecidableEq β] {f : α → β} {parent? : α → Option α}
  {parent?' : β → Option β}

theorem without_map (injective : Function.Injective f) (items : List α) (item : α) :
    without (items.map f) (f item) = (without items item).map f := by
  unfold without
  rw [List.filter_map]
  simp only [Function.comp_def, ne_eq, injective.eq_iff]

theorem walk_map (injective : Function.Injective f)
    (sameParent : ∀ item, parent?' (f item) = (parent? item).map f) (fresh : List α) (start : α) :
    walk parent?' (fresh.map f) (f start)
      = ((walk parent? fresh start).1.map f, (walk parent? fresh start).2.map f) := by
  fun_induction walk parent? fresh start with
  | case1 fresh start isFresh root =>
    rw [walk, dif_pos (List.mem_map_of_mem isFresh), sameParent, root]
    rfl
  | case2 fresh start isFresh parent isParent path stop walked ih =>
    rw [walk, dif_pos (List.mem_map_of_mem isFresh), sameParent, isParent]
    simp only [Option.map_some, without_map injective, ih, walked, List.map_cons]
  | case3 fresh start notFresh =>
    rw [walk, dif_neg fun inside => notFresh ((List.mem_map_of_injective injective).mp inside)]
    rfl

theorem loop_map (injective : Function.Injective f) (path : List α) (stop : Option α) :
    loop (path.map f, stop.map f) = (loop (path, stop)).map f := by
  cases stop with
  | none => rfl
  | some stop =>
    simp only [loop, Option.map_some, List.dropWhile_map, Function.comp_def, ne_eq,
      injective.eq_iff]

theorem loops_map (injective : Function.Injective f)
    (sameParent : ∀ item, parent?' (f item) = (parent? item).map f) (fresh starts : List α) :
    loops parent?' (fresh.map f) (starts.map f) = (loops parent? fresh starts).map (·.map f) := by
  induction starts generalizing fresh with
  | nil => rfl
  | cons start starts ih =>
    have visited : (fresh.map f).filter (· ∉ (walk parent? fresh start).1.map f)
        = (fresh.filter (· ∉ (walk parent? fresh start).1)).map f := by
      rw [List.filter_map]
      simp only [Function.comp_def, List.mem_map_of_injective injective]
    rw [List.map_cons, loops_cons, loops_cons, walk_map injective sameParent, loop_map injective,
      visited, ih, List.map_append]
    simp only [List.map_eq_nil_iff]
    split <;> rfl

omit [DecidableEq α] [DecidableEq β] in
theorem minOn?_snd_map (f : α → β) (cycle : List (α × String)) :
    (cycle.map (Prod.map f id)).minOn? (·.2) = (cycle.minOn? (·.2)).map (Prod.map f id) := by
  cases cycle with
  | nil => rfl
  | cons first rest =>
    simp only [List.map_cons, List.minOn?, Option.map_some]
    induction rest generalizing first with
    | nil => rfl
    | cons second rest ih =>
      rw [List.map_cons, List.foldl_cons, List.foldl_cons, ← ih]
      simp only [minOn, Prod.map_snd, id]
      split <;> rfl

theorem fromLeast_map (injective : Function.Injective f) (cycle : List (α × String)) :
    fromLeast (cycle.map (Prod.map f id)) = (fromLeast cycle).map (Prod.map f id) := by
  unfold fromLeast
  rw [minOn?_snd_map]
  cases cycle.minOn? (·.2) with
  | none => rfl
  | some least =>
    simp only [Option.map_some, List.dropWhile_map, List.takeWhile_map, Function.comp_def,
      Prod.map_fst, ne_eq, injective.eq_iff, List.map_append]

end

end Inheritance

namespace Position

def rename (label : Identifier → Identifier) : Position → Position
  | .attr name => .attr (label name)
  | .operationReturn name => .operationReturn (label name)
  | .operationArgument operation argument => .operationArgument (label operation) (label argument)
  | .constructorArgument argument => .constructorArgument (label argument)
  | .constant name => .constant (label name)
  | .dictionaryMember name => .dictionaryMember (label name)
  | .callbackArgument argument => .callbackArgument (label argument)
  | .callbackReturn => .callbackReturn
  | .typedefTarget => .typedefTarget
  | .inheritance => .inheritance
  | .includes => .includes

theorem operationText_rename {label : Identifier → Identifier} {spell spell' : Identifier → String}
    {name : Identifier} (sameText : spell' (label name) = spell name)
    (sameEmpty : (label name).isEmpty = name.isEmpty) :
    operationText spell' (label name) = operationText spell name := by
  simp only [operationText, sameText, sameEmpty]

theorem describe_rename {label : Identifier → Identifier} {spell spell' : Identifier → String}
    {position : Position} (sameText : ∀ name ∈ position.names, spell' (label name) = spell name)
    (sameEmpty : ∀ name, (label name).isEmpty = name.isEmpty) :
    (position.rename label).describe spell' = position.describe spell := by
  cases position with
  | attr name =>
    exact congrArg (fun spelling => s!"attribute `{spelling}`") (sameText name (by simp [names]))
  | operationReturn name =>
    exact congrArg (fun text => s!"return type of {text}")
      (operationText_rename (sameText name (by simp [names])) (sameEmpty name))
  | operationArgument name argument =>
    exact congrArg₂ (fun spelling text => s!"argument `{spelling}` of {text}")
      (sameText argument (by simp [names]))
      (operationText_rename (sameText name (by simp [names])) (sameEmpty name))
  | constructorArgument argument =>
    exact congrArg (fun spelling => s!"argument `{spelling}` of constructor")
      (sameText argument (by simp [names]))
  | constant name =>
    exact congrArg (fun spelling => s!"constant `{spelling}`") (sameText name (by simp [names]))
  | dictionaryMember name =>
    exact congrArg (fun spelling => s!"dictionary member `{spelling}`")
      (sameText name (by simp [names]))
  | callbackArgument argument =>
    exact congrArg (fun spelling => s!"argument `{spelling}`")
      (sameText argument (by simp [names]))
  | callbackReturn | typedefTarget | inheritance | includes => rfl

end Position

namespace Occurrence

def rename (label : Identifier → Identifier) : Occurrence → Occurrence
  | .type position name => .type (position.rename label) (label name)
  | .reference expected position name => .reference expected (position.rename label) (label name)

end Occurrence

section
variable (label : Identifier → Identifier)

theorem TypeExpr.occurrences_map (position : Position) (type : RawType) :
    (type.map label).occurrences (position.rename label)
      = (type.occurrences position).map (·.rename label) := by
  simp only [occurrences, leaves_map, List.map_map]
  rfl

theorem Argument.occurrences_rewrite {position position' : Identifier → Position}
    (renamed : ∀ name, position' (label name) = (position name).rename label)
    (arguments : List (Argument RawType)) :
    (arguments.map (·.rewrite label (·.map label))).flatMap (·.occurrences position')
      = (arguments.flatMap (·.occurrences position)).map (·.rename label) := by
  rw [List.flatMap_map, List.map_flatMap]
  refine List.flatMap_congr fun argument _ => ?_
  have placed : position' (argument.rewrite label (·.map label)).name
      = (position argument.name).rename label := renamed argument.name
  rw [occurrences, placed]
  exact TypeExpr.occurrences_map label _ argument.type

theorem Member.occurrences_rewrite (member : Member RawType) :
    (member.rewrite label (·.map label)).occurrences = member.occurrences.map (·.rename label) := by
  obtain ⟨shape, _, _, _⟩ := member
  cases shape with
  | attr name type qualifiers => exact TypeExpr.occurrences_map label (.attr name) type
  | operation name returnType arguments qualifiers =>
    simp only [occurrences, rewrite, Shape.rewrite, Shape.occurrences, List.map_append]
    exact congrArg₂ _ (TypeExpr.occurrences_map label (.operationReturn name) returnType)
      (Argument.occurrences_rewrite label (fun _ => rfl) arguments)
  | constant name type value => exact TypeExpr.occurrences_map label (.constant name) type
  | constructor arguments => exact Argument.occurrences_rewrite label (fun _ => rfl) arguments

theorem Body.occurrences_rename (body : RawBody) :
    (body.rename label).occurrences = body.occurrences.map (·.rename label) := by
  have ofMembers (members : List (Member RawType)) :
      (members.map (·.rewrite label (·.map label))).flatMap (·.occurrences)
        = (members.flatMap (·.occurrences)).map (·.rename label) := by
    rw [List.flatMap_map, List.map_flatMap]
    exact List.flatMap_congr fun member _ => member.occurrences_rewrite label
  have ofParent (expected : Kind) (inherited : Option Identifier) :
      (inherited.bind fun name => some (label name)).toList.map
          (Occurrence.reference expected .inheritance)
        = (inherited.toList.map (Occurrence.reference expected .inheritance)).map
          (·.rename label) := by
    cases inherited <;> rfl
  cases body with
  | interface inherited members includes =>
    have mixins : (includes.filterMap fun name => some (label name)).map
          (Occurrence.reference .interfaceMixin .includes)
        = (includes.map (Occurrence.reference .interfaceMixin .includes)).map (·.rename label) := by
      rw [List.filterMap_eq_map', List.map_map, List.map_map]
      rfl
    simp only [rename, rewrite, occurrences, ofMembers, ofParent, mixins, List.map_append]
  | interfaceMixin members | namespaceObject members | callbackInterface members =>
    exact ofMembers members
  | callbackFunction returnType arguments =>
    simp only [rename, rewrite, occurrences, List.map_append]
    exact congrArg₂ _ (TypeExpr.occurrences_map label .callbackReturn returnType)
      (Argument.occurrences_rewrite label (fun _ => rfl) arguments)
  | dictionary inherited members =>
    have ofDictionary : (members.map (·.rewrite label (·.map label))).flatMap (·.occurrences)
        = (members.flatMap (·.occurrences)).map (·.rename label) := by
      rw [List.flatMap_map, List.map_flatMap]
      exact List.flatMap_congr fun member _ =>
        TypeExpr.occurrences_map label (.dictionaryMember member.name) member.type
    simp only [rename, rewrite, occurrences, ofParent, ofDictionary, List.map_append]
  | enumeration values => rfl
  | typedef target => exact TypeExpr.occurrences_map label .typedefTarget target

end

/-- The scope of the renamed definitions. Its interner may be another one. -/
structure Scope.IsRenamed (label : Identifier → Identifier) (scope renamed : Scope) : Prop where
  injective : Function.Injective label
  empty : label .empty = .empty
  known : renamed.known = scope.known.map (Prod.map (·.rename label) id)
  failed : ∀ name, label name ∈ renamed.failed ↔ name ∈ scope.failed

namespace Scope.IsRenamed

variable {label : Identifier → Identifier} {scope renamed : Scope}

theorem ofDefinitions {one other : Interner} {failed failed' : List Identifier}
    (injective : Function.Injective label) (empty : label .empty = .empty)
    (sameFailed : ∀ name, label name ∈ failed' ↔ name ∈ failed)
    (definitions : List RawDefinition) :
    IsRenamed label (Scope.ofDefinitions one definitions failed)
      (Scope.ofDefinitions other (definitions.map (·.rename label)) failed') where
  injective := injective
  empty := empty
  failed := sameFailed
  known := by
    unfold Scope.ofDefinitions
    rw [List.zipIdx_map, List.map_reverse]

variable (isRenamed : IsRenamed label scope renamed)

include isRenamed

theorem isEmpty_eq (name : Identifier) : (label name).isEmpty = name.isEmpty := by
  have isEmpty_iff (name : Identifier) : name.isEmpty ↔ name = .empty := by
    cases name
    simp [Identifier.isEmpty, Identifier.empty]
  rw [Bool.eq_iff_iff, isEmpty_iff, isEmpty_iff]
  constructor
  · exact fun same => isRenamed.injective (same.trans isRenamed.empty.symm)
  · exact fun same => same ▸ isRenamed.empty

theorem find?_eq (name : Identifier) :
    renamed.find? (label name) = (scope.find? name).map (Prod.map (·.rename label) id) := by
  have same : (fun known : RawDefinition × Nat =>
        decide ((known.1.rename label).identifier = label name))
      = fun known : RawDefinition × Nat => decide (known.1.identifier = name) := by
    funext known
    exact decide_eq_decide.mpr isRenamed.injective.eq_iff
  simp only [find?, isRenamed.known, List.find?_map, Function.comp_def, Prod.map_fst, same]

theorem kind?_eq (name : Identifier) : renamed.kind? (label name) = scope.kind? name := by
  rw [kind?, isRenamed.find?_eq, Option.map_map, kind?]
  refine congrArg (Option.map · (scope.find? name)) (funext fun known => ?_)
  exact known.1.body.kind_rename label

theorem handle?_eq (name : Identifier) :
    renamed.handle? (label name) = (scope.handle? name).map (·.rename label) := by
  rw [handle?, isRenamed.find?_eq, Option.map_map, handle?, Option.map_map]
  rfl

theorem parent?_eq (name : Identifier) :
    renamed.parent? (label name) = (scope.parent? name).map label := by
  simp only [parent?, isRenamed.find?_eq]
  cases scope.find? name with
  | none => rfl
  | some known =>
    have stated : (known.1.rename label).body.inherited? = known.1.body.inherited?.map label :=
      Body.inherited?_rename label known.1.body
    have kind : (known.1.rename label).kind = known.1.kind := known.1.body.kind_rename label
    simp only [Option.map_some, Option.bind_eq_bind, Option.bind_some, Prod.map_fst, stated, kind]
    cases known.1.body.inherited? with
    | none => rfl
    | some parent =>
      simp only [Option.map_some, Option.bind_some, isRenamed.kind?_eq]
      cases scope.kind? parent with
      | none => rfl
      | some kind =>
        simp only [Option.bind_some]
        split <;> rfl

theorem cycles_eq (definitions : List RawDefinition) :
    renamed.cycles (definitions.map (·.rename label))
      = (scope.cycles definitions).map (·.map label) := by
  have identifiers : (definitions.map (·.rename label)).map (·.identifier)
      = (definitions.map (·.identifier)).map label := by
    rw [List.map_map, List.map_map]
    rfl
  rw [cycles, identifiers]
  exact Inheritance.loops_map isRenamed.injective isRenamed.parent?_eq _ _

theorem cycleProblem_eq {cycle : List Identifier}
    (alike : ∀ name ∈ cycle, SpelledAlike scope.interner renamed.interner label name) :
    renamed.cycleProblem (cycle.map label) = (scope.cycleProblem cycle).map (·.rename label) := by
  have named : (cycle.map label).map (fun name => (name, renamed.interner.spell name))
      = (cycle.map fun name => (name, scope.interner.spell name)).map (Prod.map label id) := by
    rw [List.map_map, List.map_map]
    exact List.map_congr_left fun name member => congrArg _ (alike name member).spell_eq
  unfold cycleProblem
  rw [named, Inheritance.fromLeast_map isRenamed.injective]
  cases Inheritance.fromLeast (cycle.map fun name => (name, scope.interner.spell name)) with
  | nil => rfl
  | cons least rest =>
    have locations : ((renamed.find? (label least.1)).map (·.1.declaration.locations)).getD .empty
        = ((scope.find? least.1).map (·.1.declaration.locations)).getD .empty := by
      rw [isRenamed.find?_eq, Option.map_map]
      rfl
    simp only [List.map_cons, Prod.map, locations, List.map_map, Function.comp_def, id]
    rfl

theorem referent_eq {name : Identifier}
    (alike : SpelledAlike scope.interner renamed.interner label name) :
    renamed.referent (label name) = (scope.referent name).rename label := by
  unfold referent
  rw [alike.spell_eq, isRenamed.handle?_eq]
  cases BuiltinType.ofSpelling? (scope.interner.spell name) with
  | some type => rfl
  | none => cases scope.handle? name <;> rfl

theorem reference?_eq (expected : Kind) (name : Identifier) :
    renamed.reference? expected (label name)
      = (scope.reference? expected name).map (·.rename label) := by
  unfold reference?
  rw [isRenamed.find?_eq]
  cases scope.find? name with
  | none => rfl
  | some known =>
    have kind : (known.1.rename label).kind = known.1.kind := known.1.body.kind_rename label
    simp only [Option.map_some, Prod.map, kind]
    split <;> rfl

theorem resolved_eq {definition : RawDefinition}
    (alike : ∀ name ∈ definition.lookups,
      SpelledAlike scope.interner renamed.interner label name) :
    renamed.resolved (definition.rename label) = (scope.resolved definition).rename label := by
  have occurrences : ∀ occurrence ∈ definition.body.occurrences, occurrence.Satisfies
      (SpelledAlike scope.interner renamed.interner label) fun _ _ => True := by
    intro occurrence member
    cases occurrence with
    | type position name =>
      refine alike name (List.mem_cons_of_mem _ (List.mem_flatMap.mpr ⟨_, member, ?_⟩))
      exact List.mem_cons_self
    | reference expected position name => trivial
  have leaves := (Body.forall_occurrences_iff.mp occurrences).2.2
  have body : (scope.resolved definition).body = definition.body.rewrite id scope.reference?
      (·.map scope.referent) := Body.map_eq_rewrite ..
  have body' : (definition.rename label).body = definition.body.rewrite label
      (fun _ name => some (label name)) (·.map label) := rfl
  refine congrArg (Definition.mk (definition.declaration.rename label)) ?_
  rw [Body.map_eq_rewrite, body, body', Body.rewrite_rewrite, Body.rewrite_rewrite]
  apply Body.rewrite_congr
  · exact fun name _ => rfl
  · intro parent _
    rw [Option.bind_some, isRenamed.reference?_eq]
    exact Option.map_eq_bind
  · intro mixin _
    rw [Option.bind_some, isRenamed.reference?_eq]
    exact Option.map_eq_bind
  · intro given isType
    rw [TypeExpr.map_map, TypeExpr.map_map]
    exact TypeExpr.map_congr fun name isLeaf =>
      isRenamed.referent_eq (leaves given isType name isLeaf)

theorem unresolved?_eq {locations : Locations} {position : Position} {name : Identifier}
    (alike : SpelledAlike scope.interner renamed.interner label name)
    (placed : ∀ other ∈ position.names,
      SpelledAlike scope.interner renamed.interner label other) :
    renamed.unresolved? locations (position.rename label) (label name)
      = scope.unresolved? locations position name := by
  unfold unresolved?
  rw [alike.spell_eq, Position.describe_rename (fun other member => (placed other member).spell_eq)
    isRenamed.isEmpty_eq]
  simp only [isRenamed.failed]

theorem causeAt?_eq {locations : Locations} {occurrence : Occurrence}
    (alike : ∀ name ∈ occurrence.names,
      SpelledAlike scope.interner renamed.interner label name) :
    renamed.causeAt? locations (occurrence.rename label)
      = scope.causeAt? locations occurrence := by
  cases occurrence with
  | type position name =>
    have named : SpelledAlike scope.interner renamed.interner label name :=
      alike name List.mem_cons_self
    have placed : ∀ other ∈ position.names,
        SpelledAlike scope.interner renamed.interner label other :=
      fun other member => alike other (List.mem_cons_of_mem _ member)
    simp only [Occurrence.rename, causeAt?, named.spell_eq, isRenamed.find?_eq,
      isRenamed.unresolved?_eq named placed]
    cases BuiltinType.ofSpelling? (scope.interner.spell name) with
    | some type => rfl
    | none => cases scope.find? name <;> rfl
  | reference expected position name =>
    have named : SpelledAlike scope.interner renamed.interner label name :=
      alike name List.mem_cons_self
    have placed : ∀ other ∈ position.names,
        SpelledAlike scope.interner renamed.interner label other :=
      fun other member => alike other (List.mem_cons_of_mem _ member)
    have described := Position.describe_rename
      (fun other member => (placed other member).spell_eq) isRenamed.isEmpty_eq
    simp only [Occurrence.rename, causeAt?, named.spell_eq, isRenamed.find?_eq, described,
      isRenamed.unresolved?_eq named placed]
    cases scope.find? name with
    | none => rfl
    | some known =>
      have kind : (known.1.rename label).kind = known.1.kind := known.1.body.kind_rename label
      simp only [Option.map_some, Prod.map, kind]

theorem problemsOf_eq {definition : RawDefinition}
    (alike : ∀ name ∈ definition.lookups,
      SpelledAlike scope.interner renamed.interner label name) :
    renamed.problemsOf (definition.rename label)
      = (scope.problemsOf definition).map (·.rename label) := by
  have site : renamed.siteOf (definition.rename label)
      = { scope.siteOf definition with identifier := label definition.identifier } := by
    have name := (alike definition.identifier List.mem_cons_self).spell_eq
    exact congrArg (Site.mk (label definition.identifier) · definition.declaration.locations) name
  have body : (definition.rename label).body.occurrences
      = definition.body.occurrences.map (·.rename label) :=
    Body.occurrences_rename label definition.body
  rw [problemsOf, problemsOf, body, site, List.flatMap_map, List.map_flatMap]
  refine List.flatMap_congr fun occurrence member => ?_
  have names : ∀ name ∈ occurrence.names,
      SpelledAlike scope.interner renamed.interner label name := fun name isName =>
    alike name (List.mem_cons_of_mem _ (List.mem_flatMap.mpr ⟨occurrence, member, isName⟩))
  rw [problemsAt, isRenamed.causeAt?_eq names, problemsAt]
  cases scope.causeAt? _ occurrence <;> rfl

theorem resolution_eq {definitions : List RawDefinition}
    (alike : ∀ definition ∈ definitions, ∀ name ∈ definition.lookups,
      SpelledAlike scope.interner renamed.interner label name) :
    renamed.resolution (definitions.map (·.rename label))
      = ⟨(scope.resolution definitions).definitions.map (·.rename label),
        (scope.resolution definitions).problems.map (·.rename label)⟩ := by
  have resolved : (definitions.map (·.rename label)).map renamed.resolved
      = (definitions.map scope.resolved).map (·.rename label) := by
    rw [List.map_map, List.map_map]
    exact List.map_congr_left fun definition member => isRenamed.resolved_eq (alike definition member)
  have problems : (definitions.map (·.rename label)).flatMap renamed.problemsOf
      = (definitions.flatMap scope.problemsOf).map (·.rename label) := by
    rw [List.flatMap_map, List.map_flatMap]
    exact List.flatMap_congr fun definition member =>
      isRenamed.problemsOf_eq (alike definition member)
  have cycles : (renamed.cycles (definitions.map (·.rename label))).filterMap renamed.cycleProblem
      = ((scope.cycles definitions).filterMap scope.cycleProblem).map (·.rename label) := by
    rw [isRenamed.cycles_eq, List.filterMap_map, List.map_filterMap]
    refine List.filterMap_congr fun cycle member => isRenamed.cycleProblem_eq fun name inside => ?_
    have known := (Inheritance.isCycle_of_mem_loops member).2 name inside
    obtain ⟨definition, isDefinition, rfl⟩ := List.mem_map.mp known
    exact alike definition isDefinition _ List.mem_cons_self
  simp only [resolution, resolved, problems, cycles, List.map_append]

end Scope.IsRenamed

end WebIdl
