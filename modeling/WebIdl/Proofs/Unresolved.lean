import WebIdl.Proofs.Aggregation
import WebIdl.Proofs.Outcome

namespace WebIdl

def IsUnknown (interner : Interner) (fragments : List Fragment) (spelling : String) : Prop :=
  (∀ builtin : BuiltinType, builtin.spelling ≠ spelling)
    ∧ ∀ fragment ∈ fragments, interner.spelling? fragment.identifier ≠ some spelling

def Report.Truthful (interner : Interner) (fragments : List Fragment) (report : Report) : Prop :=
  ∀ problem ∈ report.problems, ∀ referenced position locations,
    problem.cause = .unresolvedReference referenced position locations →
      IsUnknown interner fragments referenced

/-- The name is that of no fragment and, where it stands for a type, of no builtin type. -/
def Dangling (interner : Interner) (fragments : List Fragment) (occurrence : Occurrence) : Prop :=
  (∀ fragment ∈ fragments, fragment.identifier ≠ occurrence.name)
    ∧ occurrence.Satisfies
      (fun name => ∀ builtin : BuiltinType, builtin.spelling ≠ interner.spell name) fun _ _ => True

section
variable {policy : AttributePolicy} {interner : Interner} {fragments : List Fragment}

variable (policy) in
theorem unresolved_iff_dangling {occurrence : Occurrence} :
    (Scope.ofDefinitions interner (mergedByName policy interner fragments)
        (Merged.ofHeld policy interner (Corpus.ofFragments fragments).groups).failed).Unresolved
          occurrence
      ↔ Dangling interner fragments occurrence := by
  have spelled {spelling : String} : BuiltinType.ofSpelling? spelling = none
      ↔ ∀ builtin : BuiltinType, builtin.spelling ≠ spelling := by
    rw [← Option.not_isSome_iff_eq_none, BuiltinType.isSome_ofSpelling?_iff, not_exists]
  have known : (∃ definition ∈ mergedByName policy interner fragments,
        definition.identifier = occurrence.name) ∨ occurrence.name
          ∈ (Merged.ofHeld policy interner (Corpus.ofFragments fragments).groups).failed
      ↔ ∃ fragment ∈ fragments, fragment.identifier = occurrence.name := by
    rw [← Merged.mem_identifiers_iff policy interner (Corpus.registers_ofFragments fragments),
      List.mem_append, List.mem_map]
    simp only [mergedByName, (sortedByName_perm _ _).mem_iff]
  have unregistered := not_congr known
  simp only [not_or, not_exists, not_and] at unregistered
  rw [Scope.Unresolved, Scope.find?_eq_none_iff, ← and_assoc]
  refine and_congr unregistered ?_
  cases occurrence with
  | type position name => exact spelled
  | reference expected position name => exact .rfl

theorem exists_unresolved_iff {report : Report}
    (rejected : Model.ofCorpus policy interner (.ofFragments fragments) = .ok (.error report))
    {referenced position : String} {locations : Locations} :
    (∃ problem ∈ report.problems,
        problem.cause = .unresolvedReference referenced position locations) ↔
      ∃ definition ∈ mergedByName policy interner fragments,
        ∃ occurrence ∈ definition.body.occurrences, Dangling interner fragments occurrence
          ∧ referenced = interner.spell occurrence.name
          ∧ position = occurrence.position.describe interner.spell
          ∧ locations = definition.declaration.locations := by
  have outcome := ((Model.gives_ofCorpus policy interner _).eq_of_ok rejected).symm
  obtain ⟨-, rfl⟩ := Model.ofHeld_eq_error_iff.mp outcome
  constructor
  · rintro ⟨problem, member, cause⟩
    rcases List.mem_append.mp (List.mem_mergeSort.mp member) with merging | resolving
    · have isMerge := Merged.isMerge_of_mem_problems merging
      rw [Problem.code, cause] at isMerge
      cases isMerge
    · rcases Scope.mem_problems_resolution.mp resolving with
        ⟨cycle, -, reported⟩ | ⟨definition, isDefinition, occurrence, inside, _, found, rfl⟩
      · obtain ⟨_, -, _, _, rfl, -⟩ := Scope.exists_names_of_cycleProblem reported
        cases cause
      · rcases Scope.causeAt?_eq_some_iff.mp found with
          ⟨unresolved, rfl⟩ | ⟨_, _, _, _, -, -, -, rfl⟩
        · obtain ⟨rfl, rfl, rfl⟩ := Problem.Cause.unresolvedReference.inj cause
          exact ⟨definition, isDefinition, occurrence, inside,
            (unresolved_iff_dangling policy).mp unresolved, rfl, rfl, rfl⟩
        · cases cause
  · rintro ⟨definition, isDefinition, occurrence, inside, dangling, rfl, rfl, rfl⟩
    have unresolved := (unresolved_iff_dangling policy).mpr dangling
    have resolving := Scope.mem_problems_resolution.mpr (.inr ⟨definition, isDefinition, occurrence,
      inside, _, Scope.causeAt?_eq_some_iff.mpr (.inl ⟨unresolved, rfl⟩), rfl⟩)
    exact ⟨_, List.mem_mergeSort.mpr (List.mem_append_right _ resolving), rfl⟩

theorem Report.truthful_iff_dangling {report : Report}
    (rejected : Model.ofCorpus policy interner (.ofFragments fragments) = .ok (.error report)) :
    report.Truthful interner fragments ↔ ∀ definition ∈ mergedByName policy interner fragments,
      ∀ occurrence ∈ definition.body.occurrences, Dangling interner fragments occurrence →
        IsUnknown interner fragments (interner.spell occurrence.name) := by
  constructor
  · intro truthful definition member occurrence inside dangling
    obtain ⟨problem, reported, cause⟩ := (exists_unresolved_iff rejected).mpr
      ⟨definition, member, occurrence, inside, dangling, rfl, rfl, rfl⟩
    exact truthful problem reported _ _ _ cause
  · intro all problem reported referenced position locations cause
    obtain ⟨definition, member, occurrence, inside, dangling, rfl, rfl, rfl⟩ :=
      (exists_unresolved_iff rejected).mp ⟨problem, reported, cause⟩
    exact all definition member occurrence inside dangling

/-- Only a parent or a mixin can be called unresolved although it is named like a builtin type. -/
theorem Dangling.satisfies_iff {occurrence : Occurrence}
    (held : ∀ fragment ∈ fragments, interner.Holds fragment.identifier)
    (isHeld : interner.Holds occurrence.name) :
    (Dangling interner fragments occurrence →
        IsUnknown interner fragments (interner.spell occurrence.name))
      ↔ occurrence.Satisfies (fun _ => True) fun _ name =>
        (∃ builtin : BuiltinType, interner.spelling? name = some builtin.spelling) →
          ∃ fragment ∈ fragments, fragment.identifier = name := by
  have spelled (builtin : BuiltinType) : builtin.spelling = interner.spell occurrence.name
      ↔ interner.spelling? occurrence.name = some builtin.spelling := by
    rw [isHeld.spelling?_eq, Option.some.injEq, eq_comm]
  have unnamed (unregistered : ∀ fragment ∈ fragments, fragment.identifier ≠ occurrence.name) :
      ∀ fragment ∈ fragments,
        interner.spelling? fragment.identifier ≠ some (interner.spell occurrence.name) := by
    intro fragment member same
    have isHeld' := held fragment member
    rw [isHeld'.spelling?_eq] at same
    exact unregistered fragment member (isHeld'.spell_inj isHeld (Option.some.inj same))
  cases occurrence with
  | type position name =>
    refine iff_of_true ?_ trivial
    exact fun ⟨unregistered, notBuiltin⟩ => ⟨notBuiltin, unnamed unregistered⟩
  | reference expected position name =>
    constructor
    · rintro truthful ⟨builtin, same⟩
      by_contra unregistered
      simp only [not_exists, not_and] at unregistered
      exact (truthful ⟨unregistered, trivial⟩).1 builtin ((spelled builtin).mpr same)
    · rintro defined ⟨unregistered, -⟩
      refine ⟨fun builtin same => ?_, unnamed unregistered⟩
      obtain ⟨fragment, member, equal⟩ := defined ⟨builtin, (spelled builtin).mp same⟩
      exact unregistered fragment member equal

end

/-- A report is truthful about what is unresolved, unless a parent or a mixin is named like a
    builtin type and stands for no definition. -/
theorem Model.truthful_iff {policy : AttributePolicy} {interner : Interner}
    {fragments : List Fragment} {report : Report}
    (held : ∀ fragment ∈ fragments, ∀ name ∈ fragment.names, interner.Holds name)
    (rejected : ofCorpus policy interner (.ofFragments fragments) = .ok (.error report)) :
    report.Truthful interner fragments ↔ ∀ fragment ∈ fragments,
      Mergeable policy (fragmentsNamed fragments fragment.identifier) →
        ∀ name, name ∈ fragment.body.inherited? ∨ name ∈ fragment.body.includes →
          (∃ builtin : BuiltinType, interner.spelling? name = some builtin.spelling) →
            ∃ other ∈ fragments, other.identifier = name := by
  have registers := Corpus.registers_ofFragments fragments
  have heldNames : ∀ fragment ∈ fragments, interner.Holds fragment.identifier :=
    fun fragment member => held fragment member _ List.mem_cons_self
  have isHeld : ∀ definition ∈ mergedByName policy interner fragments,
      ∀ occurrence ∈ definition.body.occurrences, interner.Holds occurrence.name := by
    intro definition member occurrence inside
    have merged := (sortedByName_perm _ _).mem_iff.mp member
    refine Merged.holds_lookups registers held definition merged _ ?_
    exact List.mem_cons_of_mem _ (List.mem_flatMap.mpr ⟨occurrence, inside, List.mem_cons_self⟩)
  rw [Report.truthful_iff_dangling rejected, forall₂_congr fun definition member =>
    forall₂_congr fun occurrence inside =>
      Dangling.satisfies_iff heldNames (isHeld definition member occurrence inside)]
  simp only [mergedByName, (sortedByName_perm _ _).mem_iff]
  rw [Merged.forall_occurrences_iff registers]
  simp only [Body.forall_occurrences_iff, implies_true, and_true, or_imp, forall_and]

theorem Model.truthful_missingParent :
    (∀ fragment ∈ [Fragment.bare ⟨0x20000000⟩ (some ⟨0x60000002⟩) []], ∀ name ∈ fragment.names,
        (Interner.new.holdAll ["Node", "Missing"]).Holds name)
      ∧ ∃ report, ofCorpus .standard (Interner.new.holdAll ["Node", "Missing"])
          (.ofFragments [Fragment.bare ⟨0x20000000⟩ (some ⟨0x60000002⟩) []]) = .ok (.error report)
        ∧ report.Truthful (Interner.new.holdAll ["Node", "Missing"])
          [Fragment.bare ⟨0x20000000⟩ (some ⟨0x60000002⟩) []] := by
  have held : ∀ fragment ∈ [Fragment.bare ⟨0x20000000⟩ (some ⟨0x60000002⟩) []],
      ∀ name ∈ fragment.names, (Interner.new.holdAll ["Node", "Missing"]).Holds name := by
    decide +kernel
  have spelled : (Interner.new.holdAll ["Node", "Missing"]).spelling? ⟨0x60000002⟩
      = some "Missing" := by decide +kernel
  have rejected : ofCorpus .standard (Interner.new.holdAll ["Node", "Missing"])
      (.ofFragments [Fragment.bare ⟨0x20000000⟩ (some ⟨0x60000002⟩) []])
      = .ok (.error ⟨[⟨⟨0x20000000⟩, "Node",
          .unresolvedReference "Missing" "inheritance" .empty⟩]⟩) := by
    rw [← Report.ofProblems_singleton]
    exact ofCorpus_of_ordered _ _ _ [0] [_] held (by decide +kernel) (by decide +kernel)
      (by decide +kernel)
  refine ⟨held, _, rejected, (truthful_iff held rejected).mpr ?_⟩
  rintro fragment member - name stated ⟨builtin, same⟩
  rw [List.mem_singleton.mp member] at stated
  rcases stated with parent | mixin
  · rw [← Option.some.inj parent, spelled, Option.some.injEq] at same
    have notBuiltin : ∀ builtin ∈ BuiltinType.all, builtin.spelling ≠ "Missing" := by decide
    exact absurd same.symm (notBuiltin builtin builtin.mem_all)
  · exact absurd mixin List.not_mem_nil

/-- An interface that inherits from `any` is told that `any` is no builtin type. -/
theorem Model.not_truthful_builtinParent : ∃ report,
    ofCorpus .standard (Interner.new.holdAll ["Node"])
        (.ofFragments [Fragment.bare ⟨0x20000000⟩ (some ⟨0xC0000000⟩) []]) = .ok (.error report)
      ∧ report.diagnostics.flatMap (·.notes)
        = ["`any` is neither a builtin type nor a known definition"]
      ∧ ¬ report.Truthful (Interner.new.holdAll ["Node"])
        [Fragment.bare ⟨0x20000000⟩ (some ⟨0xC0000000⟩) []] := by
  have rejected : ofCorpus .standard (Interner.new.holdAll ["Node"])
      (.ofFragments [Fragment.bare ⟨0x20000000⟩ (some ⟨0xC0000000⟩) []])
      = .ok (.error ⟨[⟨⟨0x20000000⟩, "Node",
          .unresolvedReference "any" "inheritance" .empty⟩]⟩) := by
    rw [← Report.ofProblems_singleton]
    exact ofCorpus_of_ordered _ _ _ [0] [_] (by decide +kernel) (by decide +kernel)
      (by decide +kernel) (by decide +kernel)
  refine ⟨_, rejected, by decide +kernel, fun truthful => ?_⟩
  exact (truthful _ (List.mem_singleton_self _) _ _ _ rfl).1 .any rfl

end WebIdl
