import WebIdl.Proofs.Building
import WebIdl.Proofs.Renaming

namespace WebIdl

section
variable {α β κ : Type} [DecidableEq α] [DecidableEq β] {f : α → β}

theorem appendNew_map (injective : Function.Injective f) (kept items : List α) :
    appendNew (kept.map f) (items.map f) = (appendNew kept items).map f := by
  induction items generalizing kept with
  | nil => rfl
  | cons item items ih =>
    rw [List.map_cons, appendNew_cons, appendNew_cons, ← ih]
    simp only [List.mem_map_of_injective injective]
    split
    · rfl
    · rw [List.map_append]
      rfl

theorem firstOccurrences_map (injective : Function.Injective f) (items : List α) :
    firstOccurrences (items.map f) = (firstOccurrences items).map f :=
  appendNew_map injective [] items

def Sourced.map (f : α → β) (said : Sourced α) : Sourced β := ⟨f said.value, said.locations⟩

def Conflict.map (f : α → β) (conflict : Conflict α) : Conflict β :=
  ⟨conflict.earlier.map f, conflict.later.map f⟩

namespace Agreement

variable [DecidableEq κ] {agreement : Agreement α κ} {agreement' : Agreement β κ}

theorem add_map (injective : Function.Injective f)
    (sameKey : ∀ value, agreement'.key (f value) = agreement.key value)
    (sameRule : agreement'.isRepeatable = agreement.isRepeatable) (kept : List (Sourced α))
    (said : Sourced α) :
    agreement'.add (kept.map (·.map f)) (said.map f)
      = ((agreement.add kept said).1.map (·.map f), (agreement.add kept said).2.map (·.map f)) := by
  have sameFound : (kept.map (·.map f)).find? (agreement'.key ·.value = agreement'.key (said.map f).value)
      = (kept.find? (agreement.key ·.value = agreement.key said.value)).map (·.map f) := by
    simp only [List.find?_map, Function.comp_def, Sourced.map, sameKey]
  have sameKnown : (kept.map (·.map f)).any (·.value = (said.map f).value)
      = kept.any (·.value = said.value) := by
    simp only [List.any_map, Function.comp_def, Sourced.map, injective.eq_iff]
  unfold add
  rw [sameFound, sameKnown, sameRule]
  simp only [Sourced.map, sameKey]
  split
  · split <;> simp
  · cases kept.find? (agreement.key ·.value = agreement.key said.value) with
    | none => simp
    | some first =>
      simp only [Option.map_some, injective.eq_iff]
      split <;> simp [Conflict.map, Sourced.map]

theorem addAll_map (injective : Function.Injective f)
    (sameKey : ∀ value, agreement'.key (f value) = agreement.key value)
    (sameRule : agreement'.isRepeatable = agreement.isRepeatable) (kept said : List (Sourced α)) :
    agreement'.addAll (kept.map (·.map f)) (said.map (·.map f))
      = ((agreement.addAll kept said).1.map (·.map f),
        (agreement.addAll kept said).2.map (·.map f)) := by
  induction said generalizing kept with
  | nil => rfl
  | cons next rest ih =>
    simp only [List.map_cons, addAll, add_map injective sameKey sameRule, ih, List.map_append]
    cases (agreement.add kept next).2 <;> rfl

theorem addEach_map (injective : Function.Injective f)
    (sameKey : ∀ value, agreement'.key (f value) = agreement.key value)
    (sameRule : agreement'.isRepeatable = agreement.isRepeatable) (kept : List (Sourced α))
    (said : List (List (Sourced α))) :
    agreement'.addEach (kept.map (·.map f)) (said.map (·.map (·.map f)))
      = ((agreement.addEach kept said).1.map (·.map f),
        (agreement.addEach kept said).2.map (·.map (·.map f))) := by
  induction said generalizing kept with
  | nil => rfl
  | cons next rest ih =>
    simp only [List.map_cons, addEach, addAll_map injective sameKey sameRule, ih]

end Agreement

end

theorem TypeExpr.map_injective {α β : Type} [Nonempty α] {f : α → β}
    (injective : Function.Injective f) : Function.Injective (TypeExpr.map f) := by
  obtain ⟨back, inverse⟩ := injective.hasLeftInverse
  refine Function.LeftInverse.injective (g := TypeExpr.map back) fun type => ?_
  rw [map_map, inverse.comp_eq_id, map_id]

section
variable {label : Identifier → Identifier}

theorem Argument.rewrite_injective (injective : Function.Injective label) :
    Function.Injective (Argument.rewrite label (TypeExpr.map label)) := by
  intro one other same
  obtain ⟨_, _, _, _, _, _⟩ := one
  obtain ⟨_, _, _, _, _, _⟩ := other
  simp only [rewrite, mk.injEq] at same
  obtain ⟨name, type, rfl, rfl, rfl, rfl⟩ := same
  rw [injective name, TypeExpr.map_injective injective type]

def Statement.rename (label : Identifier → Identifier) : Statement → Statement
  | .inheritance parent => .inheritance (label parent)
  | .returnType type => .returnType (type.map label)
  | .arguments given => .arguments (given.map (·.rewrite label (·.map label)))
  | .values listed => .values listed
  | .target type => .target (type.map label)

theorem Statement.rename_injective (injective : Function.Injective label) :
    Function.Injective (rename label) := by
  intro one other same
  cases one <;> cases other <;>
    simp only [rename, reduceCtorEq, inheritance.injEq, returnType.injEq, arguments.injEq,
      values.injEq, target.injEq] at same
  · rw [injective same]
  · rw [TypeExpr.map_injective injective same]
  · rw [List.map_injective_iff.mpr (Argument.rewrite_injective injective) same]
  · rw [same]
  · rw [TypeExpr.map_injective injective same]

theorem Statement.field_rename (label : Identifier → Identifier) (statement : Statement) :
    (statement.rename label).field = statement.field := by
  cases statement <;> rfl

namespace Body

theorem statements_rename (label : Identifier → Identifier) (body : RawBody) :
    (body.rename label).statements = body.statements.map (·.rename label) := by
  cases body with
  | interface inherited _ _ | dictionary inherited _ => cases inherited <;> rfl
  | _ => rfl

theorem setOrigin_rename (label : Identifier → Identifier) (origin : Origin) (body : RawBody) :
    (body.rename label).setOrigin (origin.rename label) = (body.setOrigin origin).rename label := by
  cases body <;>
    simp [rename, rewrite, setOrigin, Function.comp_def, Member.setOrigin, Member.rewrite,
      DictionaryMember.setOrigin, DictionaryMember.rewrite]

theorem append_rename (injective : Function.Injective label) (one other : RawBody) :
    (one.rename label).append (other.rename label) = (one.append other).rename label := by
  have parent (inherited inherited' : Option Identifier) :
      (inherited.bind fun name => some (label name)).or (inherited'.bind fun name => some (label name))
        = (inherited.or inherited').bind fun name => some (label name) := by
    cases inherited <;> rfl
  cases one <;> cases other <;>
    simp [rename, rewrite, append, appendNew_map injective, parent]

theorem withDistinctIncludes_rename (injective : Function.Injective label) (body : RawBody) :
    (body.rename label).withDistinctIncludes = body.withDistinctIncludes.rename label := by
  cases body <;>
    simp [rename, rewrite, withDistinctIncludes, firstOccurrences_map injective]

end Body

namespace Fragment

theorem originBody_rename (fragment : Fragment) :
    (fragment.rename label).originBody = fragment.originBody.rename label :=
  Body.setOrigin_rename label fragment.origin fragment.body

theorem sourcedStatements_rename (fragment : Fragment) :
    (fragment.rename label).sourcedStatements
      = fragment.sourcedStatements.map (·.map (·.rename label)) := by
  have body : (fragment.rename label).body.statements
      = fragment.body.statements.map (·.rename label) := Body.statements_rename label fragment.body
  rw [sourcedStatements, body, sourcedStatements, List.map_map, List.map_map]
  rfl

end Fragment

namespace Fragments

def rename (label : Identifier → Identifier) (fragments : Fragments) : Fragments :=
  ⟨fragments.first.rename label, fragments.others.map (·.rename label)⟩

variable (fragments : Fragments)

theorem toList_rename : (fragments.rename label).toList = fragments.toList.map (·.rename label) :=
  rfl

/-- What renaming keeps of each fragment is the same of all fragments together. -/
theorem map_toList_rename {β : Type} {view : Fragment → β}
    (same : ∀ fragment : Fragment, view (fragment.rename label) = view fragment) :
    (fragments.rename label).toList.map view = fragments.toList.map view := by
  rw [toList_rename, List.map_map]
  exact List.map_congr_left fun fragment _ => same fragment

theorem kind_rename : (fragments.rename label).kind = fragments.kind :=
  fragments.first.kind_rename label

theorem sameKind_rename : (fragments.rename label).sameKind = fragments.sameKind := by
  simp only [sameKind, kind_rename]
  simp only [rename, List.all_map, Function.comp_def, Fragment.kind_rename]

theorem onlyPartial_rename : (fragments.rename label).onlyPartial = fragments.onlyPartial := by
  simp only [onlyPartial, kind_rename, toList_rename, List.all_map, Function.comp_def]
  rfl

theorem locations_rename : (fragments.rename label).locations = fragments.locations := by
  simp only [locations, toList_rename, List.foldl_map]
  rfl

theorem attributes_rename (policy : AttributePolicy) :
    (fragments.rename label).attributes policy = fragments.attributes policy := by
  rw [attributes, map_toList_rename fragments fun _ => rfl, attributes]

theorem hints_rename : (fragments.rename label).hints = fragments.hints := by
  rw [hints, map_toList_rename fragments fun _ => rfl, hints]

theorem kindMismatch_rename : (fragments.rename label).kindMismatch = fragments.kindMismatch := by
  have same (fragment : Fragment) : ((fragment.rename label).kind, (fragment.rename label).locations)
      = (fragment.kind, fragment.locations) := by
    rw [Fragment.kind_rename]
    rfl
  rw [kindMismatch, map_toList_rename fragments same, kindMismatch]

theorem statements_rename (injective : Function.Injective label) :
    (fragments.rename label).statements.2
      = fragments.statements.2.map (·.map (·.map (·.rename label))) := by
  have said : (fragments.rename label).toList.map (·.sourcedStatements)
      = (fragments.toList.map (·.sourcedStatements)).map (·.map (·.map (·.rename label))) := by
    rw [toList_rename, List.map_map, List.map_map]
    exact List.map_congr_left fun fragment _ => fragment.sourcedStatements_rename
  have sameKey : ∀ value, Statement.agreement.key (value.rename label)
      = Statement.agreement.key value := Statement.field_rename label
  have added := Agreement.addEach_map (Statement.rename_injective injective) sameKey rfl []
    (fragments.toList.map (·.sourcedStatements))
  rw [statements, said]
  exact congrArg (·.2) added

theorem causes_rename (injective : Function.Injective label) (policy : AttributePolicy) :
    (fragments.rename label).causes policy = fragments.causes policy := by
  have sameCause (conflicts : List (Conflict Statement)) :
      (conflicts.map (·.map (·.rename label))).map Conflict.statementCause
        = conflicts.map Conflict.statementCause := by
    rw [List.map_map]
    refine List.map_congr_left fun conflict _ => ?_
    simp only [Function.comp_apply, Conflict.statementCause, Conflict.map, Sourced.map,
      Statement.field_rename]
  have disagreements : (fragments.rename label).disagreements policy
      = fragments.disagreements policy := by
    simp only [disagreements, attributes_rename, statements_rename fragments injective,
      List.zipWith_map_right, sameCause]
  simp only [causes, onlyPartial_rename, kind_rename, locations_rename, disagreements]

theorem body_rename (injective : Function.Injective label) :
    (fragments.rename label).body = fragments.body.rename label := by
  have folded (first : RawBody) (others : List Fragment) :
      (others.map (·.rename label)).foldl (·.append ·.originBody) (first.rename label)
        = (others.foldl (·.append ·.originBody) first).rename label := by
    induction others generalizing first with
    | nil => rfl
    | cons next rest ih =>
      rw [List.map_cons, List.foldl_cons, Fragment.originBody_rename,
        Body.append_rename injective, ih, List.foldl_cons]
  rw [body, body, ← folded]
  simp only [rename, Fragment.originBody_rename, Body.withDistinctIncludes_rename injective]

theorem components_rename (injective : Function.Injective label) :
    (fragments.rename label).components
      = fragments.components.map fun component => ⟨label component.name⟩ := by
  have injective' : Function.Injective fun component : Component =>
      (⟨label component.name⟩ : Component) := by
    intro one other same
    have equal : one.name = other.name := injective (Component.mk.inj same)
    cases one
    cases other
    exact congrArg Component.mk equal
  rw [components, components, ← firstOccurrences_map injective', toList_rename, List.map_map,
    List.map_map]
  rfl

theorem definition_rename (injective : Function.Injective label) (policy : AttributePolicy)
    (identifier : Identifier) :
    (fragments.rename label).definition policy (label identifier)
      = (fragments.definition policy identifier).rename label := by
  simp only [definition, attributes_rename, hints_rename, components_rename fragments injective,
    locations_rename, body_rename fragments injective]
  rfl

end Fragments

end

end WebIdl
