import WebIdl.Proofs.Conflicts
import WebIdl.Proofs.Gathering

namespace WebIdl

section
variable {α : Type}

def firstStated? (says? : RawBody → Option α) (together : List Fragment) : Option (Sourced α) :=
  together.findSome? fun fragment => (says? fragment.body).map (⟨·, fragment.locations⟩)

def contradiction? [DecidableEq α] (field : String) (says? : RawBody → Option α)
    (together : List Fragment) (fragment : Fragment) : Option Problem.Cause := do
  let said ← says? fragment.body
  let first ← firstStated? says? together
  if first.value = said then none
  else some (.conflictingDeclaration field first.locations fragment.locations)

end

namespace Fragment

def contradictions (together : List Fragment) (fragment : Fragment) : List Problem.Cause :=
  List.filterMap id
    [ contradiction? "inheritance" parent? together fragment,
      contradiction? "return type" returnType? together fragment,
      contradiction? "arguments" arguments? together fragment,
      contradiction? "values" values? together fragment,
      contradiction? "type" target? together fragment ]
where
  parent? : RawBody → Option Identifier
    | .interface parent _ _ | .dictionary parent _ => parent
    | _ => none
  returnType? : RawBody → Option RawType
    | .callbackFunction returnType _ => some returnType
    | _ => none
  arguments? : RawBody → Option (List (Argument RawType))
    | .callbackFunction _ arguments => some arguments
    | _ => none
  values? : RawBody → Option (List String)
    | .enumeration values => some values
    | _ => none
  target? : RawBody → Option RawType
    | .typedef type => some type
    | _ => none

end Fragment

def undefinedCauses (kind : Kind) (together : List Fragment) : List Problem.Cause :=
  if kind.allowsPartial ∧ ∀ fragment ∈ together, fragment.isPartial then
    [.partialOnly kind ⟨firstOccurrences (together.flatMap (·.locations.entries))⟩]
  else []

/-- Merging a group reports what is wrong with its fragments. Only what their extended attributes
    disagree on is left open. -/
structure FragmentGroup.Reports (group : FragmentGroup) (name : String)
    (result : Option (Except (List Problem) RawDefinition)) : Prop where
  nothing : result = none ↔ group.fragments = []
  mismatch : (∃ one ∈ group.fragments, ∃ other ∈ group.fragments, one.kind ≠ other.kind) →
    result = some (.error [⟨group.identifier, name, .kindMismatch
      (group.fragments.map fun fragment => (fragment.kind, fragment.locations))⟩])
  oneKind : group.fragments ≠ [] → ∀ kind : Kind,
    (∀ fragment ∈ group.fragments, fragment.kind = kind) →
      ∃ causes disagreements, causes = undefinedCauses kind group.fragments ++ disagreements
        ∧ disagreements.filter (·.code ≠ .duplicateAttribute)
          = group.fragments.flatMap (·.contradictions group.fragments)
        ∧ (causes = [] → ∃ definition, result = some (.ok definition))
        ∧ (causes ≠ [] → result = some (.error (causes.map (⟨group.identifier, name, ·⟩))))

def Body.statement? (body : RawBody) (field : String) : Option Statement :=
  body.statements.find? (·.field = field)

def Statement.fields : List String :=
  ["inheritance", "return type", "arguments", "values", "type"]

theorem Body.statements_eq (body : RawBody) :
    body.statements = Statement.fields.filterMap body.statement? := by
  rcases body with ⟨_ | _⟩ | _ | _ | _ | _ | ⟨_ | _⟩ | _ | _ <;> rfl

theorem Body.statement?_eq (body : RawBody) :
    body.statement? "inheritance" = (Fragment.contradictions.parent? body).map .inheritance
      ∧ body.statement? "return type"
        = (Fragment.contradictions.returnType? body).map .returnType
      ∧ body.statement? "arguments" = (Fragment.contradictions.arguments? body).map .arguments
      ∧ body.statement? "values" = (Fragment.contradictions.values? body).map .values
      ∧ body.statement? "type" = (Fragment.contradictions.target? body).map .target := by
  rcases body with ⟨_ | _⟩ | _ | _ | _ | _ | ⟨_ | _⟩ | _ | _ <;> exact ⟨rfl, rfl, rfl, rfl, rfl⟩

theorem Statement.first?_eq_firstStated? (together : List Fragment) (field : String) :
    agreement.first? (together.flatMap (·.sourcedStatements)) field
      = firstStated? (·.statement? field) together := by
  have single : agreement.isRepeatable field = false := rfl
  rw [Agreement.first?_of_single single, List.find?_flatMap, firstStated?]
  simp only [Fragment.sourcedStatements, List.find?_map]
  rfl

namespace Fragment

def causeAbout? (together : List Fragment) (fragment : Fragment) (field : String) :
    Option Problem.Cause :=
  (fragment.body.statement? field).bind fun statement =>
    (Statement.agreement.conflict? (together.flatMap (·.sourcedStatements))
      ⟨statement, fragment.locations⟩).map Conflict.statementCause

theorem causeAbout?_eq {α : Type} [DecidableEq α] {field : String} {says? : RawBody → Option α}
    {state : α → Statement} (injective : Function.Injective state)
    (isField : ∀ said, (state said).field = field)
    (stated : ∀ body : RawBody, body.statement? field = (says? body).map state)
    (together : List Fragment) (fragment : Fragment) :
    fragment.causeAbout? together field = contradiction? field says? together fragment := by
  have first : firstStated? (·.statement? field) together
      = (firstStated? says? together).map fun first => ⟨state first.value, first.locations⟩ := by
    simp only [firstStated?, stated, List.map_findSome?, Option.map_map, Function.comp_def]
  rw [causeAbout?, contradiction?, stated, Option.bind_map]
  refine congrArg (Option.bind _) (funext fun said => ?_)
  have about : Statement.agreement.first? (together.flatMap (·.sourcedStatements))
      (Statement.agreement.key (state said)) = firstStated? (·.statement? field) together := by
    rw [← isField said]
    exact Statement.first?_eq_firstStated? together _
  rw [Function.comp_apply, Agreement.conflict?, about, first, Option.bind_map, Option.map_bind]
  refine congrArg (Option.bind _) (funext fun earlier => ?_)
  by_cases same : earlier.value = said
  · simp [same]
  · simp [same, injective.eq_iff, Conflict.statementCause, isField]

theorem conflicts_eq_contradictions (together : List Fragment) (fragment : Fragment) :
    (fragment.sourcedStatements.filterMap (Statement.agreement.conflict?
        (together.flatMap (·.sourcedStatements)))).map Conflict.statementCause
      = fragment.contradictions together := by
  have parent := causeAbout?_eq (fun _ _ => Statement.inheritance.inj) (fun _ => rfl)
    (·.statement?_eq.1) together fragment
  have returnType := causeAbout?_eq (fun _ _ => Statement.returnType.inj) (fun _ => rfl)
    (·.statement?_eq.2.1) together fragment
  have arguments := causeAbout?_eq (fun _ _ => Statement.arguments.inj) (fun _ => rfl)
    (·.statement?_eq.2.2.1) together fragment
  have values := causeAbout?_eq (fun _ _ => Statement.values.inj) (fun _ => rfl)
    (·.statement?_eq.2.2.2.1) together fragment
  have target := causeAbout?_eq (fun _ _ => Statement.target.inj) (fun _ => rfl)
    (·.statement?_eq.2.2.2.2) together fragment
  calc
    _ = fragment.body.statements.filterMap fun statement => (Statement.agreement.conflict?
          (together.flatMap (·.sourcedStatements)) ⟨statement, fragment.locations⟩).map
            Conflict.statementCause := by
      rw [sourcedStatements, List.filterMap_map, List.map_filterMap]
      rfl
    _ = Statement.fields.filterMap (fragment.causeAbout? together) := by
      rw [Body.statements_eq, List.filterMap_filterMap]
      rfl
    _ = (Statement.fields.map (fragment.causeAbout? together)).filterMap id := by
      rw [List.filterMap_map, Function.id_comp]
    _ = fragment.contradictions together := by
      rw [contradictions, ← parent, ← returnType, ← arguments, ← values, ← target]
      rfl

end Fragment

namespace Fragments

variable {policy : AttributePolicy} {fragments : Fragments}

theorem causes_eq : fragments.causes policy
    = undefinedCauses fragments.kind fragments.toList ++ fragments.disagreements policy := by
  have locations : fragments.locations
      = ⟨firstOccurrences (fragments.toList.flatMap (·.locations.entries))⟩ :=
    congrArg Locations.mk fragments.locations_entries
  have only : fragments.onlyPartial ↔ fragments.kind.allowsPartial
      ∧ ∀ fragment ∈ fragments.toList, fragment.isPartial := by
    rw [onlyPartial, Bool.and_eq_true, List.all_eq_true]
  unfold causes undefinedCauses
  rw [locations, if_congr only rfl rfl]
  split <;> rfl

theorem filter_disagreements :
    (fragments.disagreements policy).filter (·.code ≠ .duplicateAttribute)
      = fragments.toList.flatMap (·.contradictions fragments.toList) := by
  rw [disagreements_eq, List.filter_flatMap]
  refine congrArg (List.flatMap · fragments.toList) (funext fun fragment => ?_)
  rw [List.filter_append, Fragment.conflicts_eq_contradictions]
  have attributes : ((fragment.sourcedAttributes.filterMap (policy.agreement.conflict?
      (fragments.toList.flatMap (·.sourcedAttributes)))).map Conflict.attributeCause).filter
        (·.code ≠ .duplicateAttribute) = [] := by
    refine List.filter_eq_nil_iff.mpr fun cause member => ?_
    obtain ⟨conflict, -, rfl⟩ := List.mem_map.mp member
    exact Bool.false_ne_true
  have statements : (fragment.contradictions fragments.toList).filter
      (·.code ≠ .duplicateAttribute) = fragment.contradictions fragments.toList := by
    refine List.filter_eq_self.mpr fun cause member => ?_
    rw [← Fragment.conflicts_eq_contradictions] at member
    obtain ⟨conflict, -, rfl⟩ := List.mem_map.mp member
    rfl
  rw [attributes, statements, List.nil_append]

theorem faults_of_mismatch
    (mismatch : ∃ one ∈ fragments.toList, ∃ other ∈ fragments.toList, one.kind ≠ other.kind) :
    fragments.faults policy = [fragments.kindMismatch] := by
  refine if_neg fun same => ?_
  obtain ⟨one, member, other, member', differ⟩ := mismatch
  have all := sameKind_iff.mp same
  exact differ ((all one member).trans (all other member').symm)

theorem faults_of_oneKind {kind : Kind}
    (all : ∀ fragment ∈ fragments.toList, fragment.kind = kind) :
    fragments.faults policy
      = undefinedCauses kind fragments.toList ++ fragments.disagreements policy := by
  have isKind : fragments.kind = kind := all _ List.mem_cons_self
  have same : fragments.sameKind :=
    sameKind_iff.mpr fun fragment member => (all fragment member).trans isKind.symm
  rw [faults, if_pos same, causes_eq, isKind]

end Fragments

namespace FragmentGroup

variable {policy : AttributePolicy} {interner : Interner} {group : FragmentGroup}

theorem reports_merged? : group.Reports (interner.spell group.identifier)
    (group.merged? policy interner) := by
  unfold merged?
  cases found : group.fragments? with
  | none =>
    have empty := fragments?_eq_none_iff.mp found
    constructor
    case nothing => exact iff_of_true rfl empty
    case mismatch =>
      rw [empty]
      exact nofun
    case oneKind => exact fun nonempty => absurd empty nonempty
  | some together =>
    have same := fragments?_eq_some_iff.mp found
    -- What is wrong with the fragments decides both whether they merge and what is reported.
    rw [Option.map_some, Fragments.merge_eq]
    constructor
    case nothing =>
      rw [← same]
      exact iff_of_false (Option.some_ne_none _) (List.cons_ne_nil _ _)
    case mismatch =>
      rw [← same]
      intro mismatch
      rw [Fragments.faults_of_mismatch mismatch, if_neg (List.cons_ne_nil _ _)]
      rfl
    case oneKind =>
      rw [← same]
      intro _ kind all
      refine ⟨together.faults policy, together.disagreements policy,
        Fragments.faults_of_oneKind all, Fragments.filter_disagreements, fun none => ?_,
        fun wrong => ?_⟩
      · exact ⟨_, congrArg some (if_pos none)⟩
      · exact congrArg some (if_neg wrong)

/-- Merging reports fragments of several kinds as that and no more. Otherwise, it reports that
    there are only partial fragments, and then each fragment that contradicts the first statement
    about a field. -/
theorem reports_of_held (held : interner.Holds group.identifier) :
    ∃ result, group.merge? policy interner = .ok result
      ∧ group.Reports (interner.spell group.identifier) result :=
  ⟨_, (gives_merge? policy interner group).eq_ok held, reports_merged?⟩

end FragmentGroup

def Fragment.onLine (line : UInt32) (parent : Option Identifier) : Fragment :=
  { bare ⟨0x20000000⟩ parent [] with
    isPartial := true
    locations := .single ⟨"node.idl", .line line⟩ }

/-- The first parent is stated on line 2. Line 3 contradicts it and line 4 does not. -/
def FragmentGroup.disputed : FragmentGroup :=
  ⟨⟨0x20000000⟩, [.onLine 1 none, .onLine 2 (some ⟨0x30000002⟩), .onLine 3 (some ⟨0x60000002⟩),
    .onLine 4 (some ⟨0x30000002⟩)]⟩

def FragmentGroup.disputes : List Problem :=
  [⟨⟨0x20000000⟩, "Node", .partialOnly .interface ⟨[⟨"node.idl", .line 1⟩, ⟨"node.idl", .line 2⟩,
      ⟨"node.idl", .line 3⟩, ⟨"node.idl", .line 4⟩]⟩⟩,
    ⟨⟨0x20000000⟩, "Node", .conflictingDeclaration "inheritance"
      (.single ⟨"node.idl", .line 2⟩) (.single ⟨"node.idl", .line 3⟩)⟩]

theorem FragmentGroup.reports_disputed :
    (Interner.new.holdAll ["Node"]).Holds disputed.identifier
      ∧ disputed.merge? .standard (Interner.new.holdAll ["Node"]) = .ok (some (.error disputes))
      ∧ disputed.Reports "Node" (some (.error disputes)) := by
  have held : (Interner.new.holdAll ["Node"]).Holds disputed.identifier := by decide +kernel
  have merged : disputed.merge? .standard (Interner.new.holdAll ["Node"])
      = .ok (some (.error disputes)) := by decide +kernel
  have name : (Interner.new.holdAll ["Node"]).spell disputed.identifier = "Node" := by
    decide +kernel
  obtain ⟨result, same, reports⟩ := reports_of_held held
  rw [name] at reports
  obtain rfl : result = some (.error disputes) := Except.ok.inj (same.symm.trans merged)
  exact ⟨held, merged, reports⟩

end WebIdl
