import WebIdl.Fragments
import WebIdl.Proofs.Consensus

namespace WebIdl

namespace Body

variable {ρ τ : Type}

@[simp] theorem kind_setOrigin (origin : Origin) (body : Body ρ τ) :
    (body.setOrigin origin).kind = body.kind := by
  cases body <;> rfl

@[simp] theorem inherited?_setOrigin (origin : Origin) (body : Body ρ τ) :
    (body.setOrigin origin).inherited? = body.inherited? := by
  cases body <;> rfl

@[simp] theorem includes_setOrigin (origin : Origin) (body : Body ρ τ) :
    (body.setOrigin origin).includes = body.includes := by
  cases body <;> rfl

@[simp] theorem members_setOrigin (origin : Origin) (body : Body ρ τ) :
    (body.setOrigin origin).members = body.members.map (·.setOrigin origin) := by
  cases body <;> rfl

@[simp] theorem dictionaryMembers_setOrigin (origin : Origin) (body : Body ρ τ) :
    (body.setOrigin origin).dictionaryMembers
      = body.dictionaryMembers.map (·.setOrigin origin) := by
  cases body <;> rfl

theorem kind_append (one other : RawBody) : (one.append other).kind = one.kind := by
  cases one <;> cases other <;> rfl

theorem members_append {one other : RawBody} (same : one.kind = other.kind) :
    (one.append other).members = one.members ++ other.members := by
  cases one <;> cases other <;> first | rfl | nomatch same

theorem dictionaryMembers_append {one other : RawBody} (same : one.kind = other.kind) :
    (one.append other).dictionaryMembers = one.dictionaryMembers ++ other.dictionaryMembers := by
  cases one <;> cases other <;> first | rfl | nomatch same

theorem includes_append {one other : RawBody} (same : one.kind = other.kind) :
    (one.append other).includes = appendNew one.includes other.includes := by
  cases one <;> cases other <;> first | rfl | nomatch same

theorem inherited?_append {one other : RawBody} (same : one.kind = other.kind) :
    (one.append other).inherited? = one.inherited?.or other.inherited? := by
  cases one <;> cases other <;> first | rfl | nomatch same

/-- Fragments of these kinds state their whole contents. -/
def IsWhole (body : Body ρ τ) : Prop :=
  body.kind = .callbackFunction ∨ body.kind = .enumeration ∨ body.kind = .typedef

theorem append_of_isWhole {one : RawBody} (whole : one.IsWhole) (other : RawBody) :
    one.append other = one := by
  cases one <;> simp_all [IsWhole, kind] <;> rfl

@[simp] theorem kind_withDistinctIncludes (body : RawBody) :
    body.withDistinctIncludes.kind = body.kind := by
  cases body <;> rfl

@[simp] theorem inherited?_withDistinctIncludes (body : RawBody) :
    body.withDistinctIncludes.inherited? = body.inherited? := by
  cases body <;> rfl

@[simp] theorem includes_withDistinctIncludes (body : RawBody) :
    body.withDistinctIncludes.includes = firstOccurrences body.includes := by
  cases body <;> rfl

@[simp] theorem members_withDistinctIncludes (body : RawBody) :
    body.withDistinctIncludes.members = body.members := by
  cases body <;> rfl

@[simp] theorem dictionaryMembers_withDistinctIncludes (body : RawBody) :
    body.withDistinctIncludes.dictionaryMembers = body.dictionaryMembers := by
  cases body <;> rfl

/-- A view of bodies that follows `append` can be folded over fragments of one kind. -/
theorem foldl_append {β : Type} {view : RawBody → β} {add : β → β → β}
    (view_append : ∀ one other, one.kind = other.kind →
      view (one.append other) = add (view one) (view other))
    (first : RawBody) (others : List RawBody) (same : ∀ other ∈ others, other.kind = first.kind) :
    view (others.foldl append first) = (others.map view).foldl add (view first) := by
  induction others generalizing first with
  | nil => rfl
  | cons next rest ih =>
    have equal := same next (by simp)
    rw [List.foldl_cons, List.map_cons, List.foldl_cons, ih, view_append _ _ equal.symm]
    intro other member
    rw [kind_append]
    exact same other (by simp [member])

structure Agrees (one other : RawBody) : Prop where
  parent : ∀ name ∈ one.inherited?, ∀ name' ∈ other.inherited?, name = name'
  signature : ∀ returnType arguments returnType' arguments',
    one = .callbackFunction returnType arguments → other = .callbackFunction returnType' arguments' →
      returnType = returnType' ∧ arguments = arguments'
  values : ∀ values values', one = .enumeration values → other = .enumeration values' →
    values = values'
  target : ∀ type type', one = .typedef type → other = .typedef type' → type = type'

theorem inheritance_mem_statements {body : RawBody} {parent : Identifier} :
    .inheritance parent ∈ body.statements ↔ parent ∈ body.inherited? := by
  cases body with
  | interface inherited _ _ | dictionary inherited _ =>
    cases inherited <;> simp [statements, inherited?, eq_comm]
  | _ => simp [statements, inherited?]

theorem returnType_mem_statements {body : RawBody} {type : RawType} :
    .returnType type ∈ body.statements ↔ ∃ arguments, body = .callbackFunction type arguments := by
  cases body with
  | interface inherited _ _ | dictionary inherited _ => cases inherited <;> simp [statements]
  | _ => simp [statements, eq_comm]

theorem arguments_mem_statements {body : RawBody} {arguments : List (Argument RawType)} :
    .arguments arguments ∈ body.statements ↔ ∃ type, body = .callbackFunction type arguments := by
  cases body with
  | interface inherited _ _ | dictionary inherited _ => cases inherited <;> simp [statements]
  | _ => simp [statements, eq_comm]

theorem values_mem_statements {body : RawBody} {values : List String} :
    .values values ∈ body.statements ↔ body = .enumeration values := by
  cases body with
  | interface inherited _ _ | dictionary inherited _ => cases inherited <;> simp [statements]
  | _ => simp [statements, eq_comm]

theorem target_mem_statements {body : RawBody} {type : RawType} :
    .target type ∈ body.statements ↔ body = .typedef type := by
  cases body with
  | interface inherited _ _ | dictionary inherited _ => cases inherited <;> simp [statements]
  | _ => simp [statements, eq_comm]

theorem agrees_iff {one other : RawBody} :
    one.Agrees other ↔ ∀ said ∈ one.statements, ∀ said' ∈ other.statements,
      said.field = said'.field → said = said' := by
  constructor
  · intro agrees said member said' member' same
    cases said <;> cases said' <;> simp only [Statement.field, String.reduceEq] at same
    · rw [agrees.parent _ (inheritance_mem_statements.mp member) _
        (inheritance_mem_statements.mp member')]
    · obtain ⟨arguments, isOne⟩ := returnType_mem_statements.mp member
      obtain ⟨arguments', isOther⟩ := returnType_mem_statements.mp member'
      rw [(agrees.signature _ _ _ _ isOne isOther).1]
    · obtain ⟨type, isOne⟩ := arguments_mem_statements.mp member
      obtain ⟨type', isOther⟩ := arguments_mem_statements.mp member'
      rw [(agrees.signature _ _ _ _ isOne isOther).2]
    · rw [agrees.values _ _ (values_mem_statements.mp member) (values_mem_statements.mp member')]
    · rw [agrees.target _ _ (target_mem_statements.mp member) (target_mem_statements.mp member')]
  · intro all
    constructor
    · intro parent stated parent' stated'
      have same := all _ (inheritance_mem_statements.mpr stated) _
        (inheritance_mem_statements.mpr stated') rfl
      exact Statement.inheritance.inj same
    · intro returnType arguments returnType' arguments' isOne isOther
      have same := all _ (returnType_mem_statements.mpr ⟨_, isOne⟩) _
        (returnType_mem_statements.mpr ⟨_, isOther⟩) rfl
      have same' := all _ (arguments_mem_statements.mpr ⟨_, isOne⟩) _
        (arguments_mem_statements.mpr ⟨_, isOther⟩) rfl
      exact ⟨Statement.returnType.inj same, Statement.arguments.inj same'⟩
    · intro values values' isOne isOther
      have same := all _ (values_mem_statements.mpr isOne) _ (values_mem_statements.mpr isOther) rfl
      exact Statement.values.inj same
    · intro type type' isOne isOther
      have same := all _ (target_mem_statements.mpr isOne) _ (target_mem_statements.mpr isOther) rfl
      exact Statement.target.inj same

end Body

/-- What the fragments of one definition must satisfy for their merging to succeed. -/
structure Mergeable (policy : AttributePolicy) (fragments : List Fragment) : Prop where
  oneKind : ∀ one ∈ fragments, ∀ other ∈ fragments, one.kind = other.kind
  defined : ∀ fragment ∈ fragments, fragment.kind.allowsPartial →
    ∃ other ∈ fragments, other.isPartial = false
  agree : ∀ one ∈ fragments, ∀ other ∈ fragments, one.body.Agrees other.body
  consistent : policy.agreement.Consistent (fragments.flatMap (·.attributes.entries))

theorem mergeable_nil {policy : AttributePolicy} : Mergeable policy [] :=
  ⟨nofun, nofun, nofun, Agreement.consistent_nil⟩

theorem map_value_attributes (together : List Fragment) :
    (together.flatMap (·.sourcedAttributes)).map (·.value)
      = together.flatMap (·.attributes.entries) := by
  simp [List.map_flatMap, Fragment.sourcedAttributes, Function.comp_def]

theorem map_value_statements (together : List Fragment) :
    (together.flatMap (·.sourcedStatements)).map (·.value)
      = together.flatMap (·.body.statements) := by
  simp [List.map_flatMap, Fragment.sourcedStatements, Function.comp_def]

theorem flatten_zipWith_eq_nil_iff {α β γ : Type} (f : α → γ) (g : β → γ) {ones : List (List α)}
    {others : List (List β)} (same : ones.length = others.length) :
    (List.zipWith (fun one other => one.map f ++ other.map g) ones others).flatten = []
      ↔ ones.flatten = [] ∧ others.flatten = [] := by
  induction ones generalizing others with
  | nil =>
    have none : others = [] := List.eq_nil_of_length_eq_zero same.symm
    simp [none]
  | cons one ones ih =>
    cases others with
    | nil => simp at same
    | cons other others =>
      have rest := ih (Nat.succ.inj same)
      simp only [List.zipWith_cons_cons, List.flatten_cons, List.append_eq_nil_iff, rest,
        List.map_eq_nil_iff]
      grind

namespace Fragments

variable {policy : AttributePolicy} {fragments : Fragments}

theorem attributes_spec (policy : AttributePolicy) (fragments : Fragments) :
    ((fragments.attributes policy).2.flatten = []
        ↔ policy.agreement.Consistent (fragments.toList.flatMap (·.attributes.entries)))
      ∧ ((fragments.attributes policy).2.flatten = [] →
        (fragments.attributes policy).1.map (·.value)
          = firstOccurrences (fragments.toList.flatMap (·.attributes.entries))) := by
  rw [← map_value_attributes, List.flatMap_def]
  exact Agreement.addEach_spec _

theorem statements_spec (fragments : Fragments) :
    fragments.statements.2.flatten = [] ↔
      ∀ one ∈ fragments.toList, ∀ other ∈ fragments.toList, one.body.Agrees other.body := by
  unfold statements
  rw [(Agreement.addEach_spec _).1, ← List.flatMap_def, map_value_statements]
  constructor
  · intro consistent one member other member'
    rw [Body.agrees_iff]
    intro statement isSaid statement' isSaid' same
    exact consistent _ (List.mem_flatMap.mpr ⟨one, member, isSaid⟩) _
      (List.mem_flatMap.mpr ⟨other, member', isSaid'⟩) same rfl
  · intro agree statement member statement' member' same _
    obtain ⟨one, inside, isSaid⟩ := List.mem_flatMap.mp member
    obtain ⟨other, inside', isSaid'⟩ := List.mem_flatMap.mp member'
    exact Body.agrees_iff.mp (agree one inside other inside') _ isSaid _ isSaid' same

theorem disagreements_eq_nil_iff : fragments.disagreements policy = [] ↔
    policy.agreement.Consistent (fragments.toList.flatMap (·.attributes.entries))
      ∧ ∀ one ∈ fragments.toList, ∀ other ∈ fragments.toList, one.body.Agrees other.body := by
  have same : (fragments.attributes policy).2.length = fragments.statements.2.length := by
    unfold attributes statements
    rw [Agreement.length_addEach, Agreement.length_addEach, List.length_map, List.length_map]
  rw [← (attributes_spec policy fragments).1, ← statements_spec]
  exact flatten_zipWith_eq_nil_iff _ _ same

theorem onlyPartial_eq_false_iff (oneKind : ∀ fragment ∈ fragments.toList,
    fragment.kind = fragments.kind) :
    fragments.onlyPartial = false ↔ ∀ fragment ∈ fragments.toList, fragment.kind.allowsPartial →
      ∃ other ∈ fragments.toList, other.isPartial = false := by
  have first : fragments.first ∈ fragments.toList := List.mem_cons_self
  unfold onlyPartial
  rw [Bool.and_eq_false_iff, List.all_eq_false]
  constructor
  · rintro (never | ⟨other, member, whole⟩) fragment member' allows
    · rw [oneKind fragment member', never] at allows
      nomatch allows
    · exact ⟨other, member, by simpa using whole⟩
  · intro defined
    by_cases allows : fragments.kind.allowsPartial
    · obtain ⟨other, member, whole⟩ := defined _ first allows
      exact .inr ⟨other, member, by simp [whole]⟩
    · exact .inl (by simpa using allows)

theorem sameKind_iff :
    fragments.sameKind ↔ ∀ fragment ∈ fragments.toList, fragment.kind = fragments.kind := by
  simp only [sameKind, toList, List.all_eq_true, decide_eq_true_eq, List.forall_mem_cons]
  exact ⟨fun others => ⟨rfl, others⟩, fun all => all.2⟩

theorem mergeable_iff : Mergeable policy fragments.toList ↔
    fragments.sameKind ∧ fragments.causes policy = [] := by
  rw [sameKind_iff]
  constructor
  · intro mergeable
    have oneKind : ∀ fragment ∈ fragments.toList, fragment.kind = fragments.kind :=
      fun fragment member => mergeable.oneKind fragment member _ List.mem_cons_self
    have defined := (onlyPartial_eq_false_iff oneKind).mpr mergeable.defined
    refine ⟨oneKind, ?_⟩
    rw [causes, defined]
    exact disagreements_eq_nil_iff.mpr ⟨mergeable.consistent, mergeable.agree⟩
  · rintro ⟨oneKind, none⟩
    unfold causes at none
    split at none
    · nomatch none
    · rename_i notOnly
      have agreed := disagreements_eq_nil_iff.mp none
      exact {
        oneKind := fun one member other member' =>
          (oneKind one member).trans (oneKind other member').symm
        defined := (onlyPartial_eq_false_iff oneKind).mp (by simpa using notOnly)
        agree := agreed.2
        consistent := agreed.1 }

def faults (policy : AttributePolicy) (fragments : Fragments) : List Problem.Cause :=
  if fragments.sameKind then fragments.causes policy else [fragments.kindMismatch]

theorem faults_eq_nil_iff : fragments.faults policy = [] ↔ Mergeable policy fragments.toList := by
  rw [mergeable_iff, faults]
  split <;> simp [*]

theorem merge_eq {identifier : Identifier} {name : String} :
    fragments.merge policy identifier name
      = if fragments.faults policy = [] then .ok (fragments.definition policy identifier)
        else .error ((fragments.faults policy).map (⟨identifier, name, ·⟩)) := by
  unfold merge faults
  by_cases same : fragments.sameKind
  · rw [if_pos same, if_pos same]
    cases fragments.causes policy <;> rfl
  · rw [if_neg same, if_neg same, if_neg (List.cons_ne_nil _ _)]
    rfl

theorem merge_spec (policy : AttributePolicy) (identifier : Identifier) (name : String)
    (fragments : Fragments) :
    (Mergeable policy fragments.toList ∧
        fragments.merge policy identifier name = .ok (fragments.definition policy identifier))
      ∨ ¬ Mergeable policy fragments.toList ∧ ∃ problem problems,
        fragments.merge policy identifier name = .error (problem :: problems) := by
  rw [← faults_eq_nil_iff, merge_eq]
  cases fragments.faults policy with
  | nil => exact .inl ⟨rfl, rfl⟩
  | cons fault faults => exact .inr ⟨List.cons_ne_nil _ _, _, _, rfl⟩

/-! The contents of a merged definition, fragment by fragment. -/

theorem body_view {β : Type} {view : RawBody → β} {add : β → β → β}
    (view_append : ∀ one other, one.kind = other.kind →
      view (one.append other) = add (view one) (view other))
    (oneKind : ∀ fragment ∈ fragments.toList, fragment.kind = fragments.kind) :
    view fragments.body = (fragments.others.map fun fragment => view fragment.originBody).foldl add
      (view fragments.first.originBody.withDistinctIncludes) := by
  have folded := Body.foldl_append view_append fragments.first.originBody.withDistinctIncludes
    (fragments.others.map (·.originBody)) (by
      intro other member
      obtain ⟨fragment, inside, rfl⟩ := List.mem_map.mp member
      rw [Fragment.originBody, Fragment.originBody, Body.kind_withDistinctIncludes,
        Body.kind_setOrigin, Body.kind_setOrigin]
      exact oneKind fragment (List.mem_cons_of_mem _ inside))
  rw [List.foldl_map, List.map_map] at folded
  exact folded

theorem kind_body (fragments : Fragments) : fragments.body.kind = fragments.kind := by
  unfold body
  suffices folded : ∀ first : RawBody,
      (fragments.others.foldl (·.append ·.originBody) first).kind = first.kind by
    rw [folded, Body.kind_withDistinctIncludes, Fragment.originBody, Body.kind_setOrigin]
    rfl
  intro first
  induction fragments.others generalizing first with
  | nil => rfl
  | cons next rest ih => rw [List.foldl_cons, ih, Body.kind_append]

theorem members_body (oneKind : ∀ fragment ∈ fragments.toList, fragment.kind = fragments.kind) :
    fragments.body.members
      = fragments.toList.flatMap fun fragment =>
          fragment.body.members.map (·.setOrigin fragment.origin) := by
  rw [body_view (fun _ _ => Body.members_append) oneKind, List.foldl_map,
    List.foldl_append_eq_append, Body.members_withDistinctIncludes, toList, List.flatMap_cons,
    List.flatMap_def]
  simp [Fragment.originBody]

theorem dictionaryMembers_body
    (oneKind : ∀ fragment ∈ fragments.toList, fragment.kind = fragments.kind) :
    fragments.body.dictionaryMembers
      = fragments.toList.flatMap fun fragment =>
          fragment.body.dictionaryMembers.map (·.setOrigin fragment.origin) := by
  rw [body_view (fun _ _ => Body.dictionaryMembers_append) oneKind, List.foldl_map,
    List.foldl_append_eq_append, Body.dictionaryMembers_withDistinctIncludes, toList,
    List.flatMap_cons, List.flatMap_def]
  simp [Fragment.originBody]

theorem includes_body (oneKind : ∀ fragment ∈ fragments.toList, fragment.kind = fragments.kind) :
    fragments.body.includes = firstOccurrences (fragments.toList.flatMap (·.body.includes)) := by
  rw [body_view (fun _ _ => Body.includes_append) oneKind, Body.includes_withDistinctIncludes,
    toList, List.flatMap_cons, firstOccurrences, firstOccurrences, appendNew_append]
  simp only [Fragment.originBody, Body.includes_setOrigin]
  generalize appendNew [] fragments.first.body.includes = kept
  induction fragments.others generalizing kept with
  | nil => rfl
  | cons next rest ih => rw [List.map_cons, List.foldl_cons, ih, List.flatMap_cons, appendNew_append]

theorem inherited?_body (oneKind : ∀ fragment ∈ fragments.toList, fragment.kind = fragments.kind) :
    fragments.body.inherited? = fragments.toList.findSome? (·.body.inherited?) := by
  rw [body_view (fun _ _ => Body.inherited?_append) oneKind, Body.inherited?_withDistinctIncludes,
    toList]
  simp only [Fragment.originBody, Body.inherited?_setOrigin, List.findSome?_cons]
  have folded : ∀ parent : Option Identifier,
      (fragments.others.map (·.body.inherited?)).foldl Option.or parent
        = parent.or (fragments.others.findSome? (·.body.inherited?)) := by
    induction fragments.others with
    | nil => simp
    | cons next rest ih =>
      intro parent
      rw [List.map_cons, List.foldl_cons, ih, List.findSome?_cons, Option.or_assoc]
      cases next.body.inherited? <;> rfl
  rw [folded]
  cases fragments.first.body.inherited? <;> rfl

theorem body_of_isWhole (whole : fragments.first.body.IsWhole) :
    fragments.body = fragments.first.body := by
  have start : fragments.first.originBody.withDistinctIncludes = fragments.first.body := by
    unfold Fragment.originBody
    cases stated : fragments.first.body <;> first | rfl | simp [stated, Body.IsWhole, Body.kind] at whole
  unfold body
  rw [start]
  induction fragments.others with
  | nil => rfl
  | cons next rest ih => rw [List.foldl_cons, Body.append_of_isWhole whole, ih]

end Fragments

end WebIdl
