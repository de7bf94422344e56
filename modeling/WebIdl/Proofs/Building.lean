import WebIdl.Model
import WebIdl.Proofs.Names
import WebIdl.Proofs.Registration

namespace WebIdl

theorem Fragments.isMerge_of_mem_causes {policy : AttributePolicy} {fragments : Fragments} :
    ∀ cause ∈ fragments.causes policy, cause.code.isMerge := by
  have disagreements : ∀ cause ∈ fragments.disagreements policy, cause.code.isMerge := by
    intro cause member
    rw [Fragments.disagreements, ← List.map_uncurry_zip_eq_zipWith] at member
    obtain ⟨causes, isFragment, isCause⟩ := List.mem_flatten.mp member
    obtain ⟨conflicts, -, rfl⟩ := List.mem_map.mp isFragment
    rcases List.mem_append.mp isCause with ofAttributes | ofStatements
    · obtain ⟨conflict, -, rfl⟩ := List.mem_map.mp ofAttributes
      rfl
    · obtain ⟨conflict, -, rfl⟩ := List.mem_map.mp ofStatements
      rfl
  unfold causes
  split
  · exact List.forall_mem_cons.mpr ⟨rfl, disagreements⟩
  · exact disagreements

theorem Fragments.isMerge_of_mem_faults {policy : AttributePolicy} {fragments : Fragments} :
    ∀ cause ∈ fragments.faults policy, cause.code.isMerge := by
  unfold faults
  split
  · exact isMerge_of_mem_causes
  · exact List.forall_mem_singleton.mpr rfl

theorem Fragments.exists_cause_of_merge {policy : AttributePolicy} {fragments : Fragments}
    {identifier : Identifier} {name : String} {problems : List Problem}
    (merged : fragments.merge policy identifier name = .error problems) :
    ∀ problem ∈ problems, ∃ cause : Problem.Cause,
      cause.code.isMerge ∧ problem = ⟨identifier, name, cause⟩ := by
  rw [merge_eq] at merged
  split at merged
  · nomatch merged
  · rw [← Except.error.inj merged, List.forall_mem_map]
    exact fun cause isFault => ⟨cause, isMerge_of_mem_faults cause isFault, rfl⟩

namespace FragmentGroup

variable (policy : AttributePolicy) (interner : Interner)

def merged? (group : FragmentGroup) : Option (Except (List Problem) RawDefinition) :=
  group.fragments?.map (·.merge policy group.identifier (interner.spell group.identifier))

theorem gives_merge? (group : FragmentGroup) :
    Gives (interner.Holds group.identifier) (group.merge? policy interner)
      (group.merged? policy interner) := by
  unfold merge? merged?
  cases group.fragments? with
  | none => exact (Gives.pure none).mono fun _ => trivial
  | some fragments =>
    exact (gives_lookup interner group.identifier).map
      fun name => some (fragments.merge policy group.identifier name)

def definition? (group : FragmentGroup) : Option RawDefinition :=
  match group.merged? policy interner with
  | some (.ok definition) => some definition
  | _ => none

def problems (group : FragmentGroup) : List Problem :=
  match group.merged? policy interner with
  | some (.error problems) => problems
  | _ => []

def failed? (group : FragmentGroup) : Option Identifier :=
  match group.merged? policy interner with
  | some (.error _) => some group.identifier
  | _ => none

theorem fragments?_eq_none_iff {group : FragmentGroup} :
    group.fragments? = none ↔ group.fragments = [] := by
  unfold fragments?
  cases group.fragments <;> simp

theorem fragments?_eq_some_iff {group : FragmentGroup} {together : Fragments} :
    group.fragments? = some together ↔ together.toList = group.fragments := by
  unfold fragments?
  cases group.fragments with
  | nil => simp [Fragments.toList]
  | cons first others =>
    cases together
    simp [Fragments.toList, eq_comm]

theorem merged?_spec (group : FragmentGroup) :
    (group.fragments = [] ∧ group.merged? policy interner = none)
      ∨ ∃ together : Fragments, together.toList = group.fragments
        ∧ ((Mergeable policy group.fragments ∧ group.merged? policy interner
              = some (.ok (together.definition policy group.identifier)))
          ∨ (¬ Mergeable policy group.fragments ∧ ∃ problem problems,
              group.merged? policy interner = some (.error (problem :: problems)))) := by
  cases found : group.fragments? with
  | none =>
    exact .inl ⟨fragments?_eq_none_iff.mp found, by rw [merged?, found]; rfl⟩
  | some together =>
    have same := fragments?_eq_some_iff.mp found
    refine .inr ⟨together, same, ?_⟩
    rw [merged?, found, ← same]
    rcases together.merge_spec policy group.identifier (interner.spell group.identifier) with
      ⟨mergeable, merged⟩ | ⟨unmergeable, problem, problems, merged⟩
    · exact .inl ⟨mergeable, congrArg some merged⟩
    · exact .inr ⟨unmergeable, problem, problems, congrArg some merged⟩

variable {policy interner}

theorem definition?_eq_some_iff {group : FragmentGroup} {definition : RawDefinition} :
    group.definition? policy interner = some definition ↔
      Mergeable policy group.fragments ∧ ∃ together : Fragments,
        together.toList = group.fragments
          ∧ definition = together.definition policy group.identifier := by
  unfold definition?
  rcases group.merged?_spec policy interner with
    ⟨empty, merged⟩ | ⟨together, same, ⟨mergeable, merged⟩ | ⟨unmergeable, _, _, merged⟩⟩
  · simp [merged, empty, Fragments.toList]
  · simp only [merged, Option.some.injEq, mergeable, true_and]
    constructor
    · exact fun equal => ⟨together, same, equal.symm⟩
    · rintro ⟨other, same', rfl⟩
      have equal := (fragments?_eq_some_iff.mpr same).symm.trans (fragments?_eq_some_iff.mpr same')
      rw [Option.some.inj equal]
  · simp [merged, unmergeable]

theorem problems_eq_nil_iff {group : FragmentGroup} :
    group.problems policy interner = [] ↔ Mergeable policy group.fragments := by
  unfold problems
  rcases group.merged?_spec policy interner with
    ⟨empty, merged⟩ | ⟨_, _, ⟨mergeable, merged⟩ | ⟨unmergeable, _, _, merged⟩⟩
  · simp [merged, empty, mergeable_nil]
  · simp [merged, mergeable]
  · simp [merged, unmergeable]

theorem failed?_eq_some_iff {group : FragmentGroup} {identifier : Identifier} :
    group.failed? policy interner = some identifier
      ↔ group.identifier = identifier ∧ ¬ Mergeable policy group.fragments := by
  unfold failed?
  rcases group.merged?_spec policy interner with
    ⟨empty, merged⟩ | ⟨_, _, ⟨mergeable, merged⟩ | ⟨unmergeable, _, _, merged⟩⟩
  · simp [merged, empty, mergeable_nil]
  · simp [merged, mergeable]
  · simp [merged, unmergeable]

theorem exists_cause_of_mem_problems {group : FragmentGroup} {problem : Problem}
    (member : problem ∈ group.problems policy interner) : ∃ cause : Problem.Cause,
      cause.code.isMerge ∧ problem = ⟨group.identifier, interner.spell group.identifier, cause⟩ := by
  unfold problems at member
  split at member
  · rename_i problems merged
    obtain ⟨fragments, -, failed⟩ := Option.map_eq_some_iff.mp merged
    exact Fragments.exists_cause_of_merge failed problem member
  · nomatch member

theorem site_of_mem_problems {group : FragmentGroup} {problem : Problem}
    (member : problem ∈ group.problems policy interner) :
    problem.identifier = group.identifier ∧ problem.name = interner.spell group.identifier := by
  obtain ⟨cause, -, rfl⟩ := exists_cause_of_mem_problems member
  exact ⟨rfl, rfl⟩

end FragmentGroup

namespace Merged

variable (policy : AttributePolicy) (interner : Interner)

def ofHeld (groups : List FragmentGroup) : Merged where
  definitions := groups.filterMap (·.definition? policy interner)
  failed := groups.filterMap (·.failed? policy interner)
  problems := groups.flatMap (·.problems policy interner)

theorem ofHeld_cons (group : FragmentGroup) (groups : List FragmentGroup) :
    ofHeld policy interner (group :: groups)
      = match group.merged? policy interner with
        | none => ofHeld policy interner groups
        | some result => (ofHeld policy interner groups).withResult group.identifier result := by
  unfold ofHeld
  simp only [List.filterMap_cons, List.flatMap_cons, FragmentGroup.definition?,
    FragmentGroup.failed?, FragmentGroup.problems]
  rcases group.merged? policy interner with none | problems | definition <;> rfl

theorem gives_ofGroups (groups : List FragmentGroup) :
    Gives (∀ group ∈ groups, interner.Holds group.identifier)
      (ofGroups policy interner groups) (ofHeld policy interner groups) := by
  induction groups with
  | nil => exact (Gives.pure empty).mono fun _ => trivial
  | cons group groups ih =>
    have rest := ih.map fun merged =>
      match group.merged? policy interner with
      | none => merged
      | some result => merged.withResult group.identifier result
    rw [ofHeld_cons]
    exact ((group.gives_merge? policy interner).bind rest).mono List.forall_mem_cons.mp

variable {policy interner} {corpus : Corpus} {fragments : List Fragment}

theorem problems_eq_nil_iff (registers : corpus.Registers fragments) :
    (ofHeld policy interner corpus.groups).problems = [] ↔
      ∀ identifier, Mergeable policy (fragmentsNamed fragments identifier) := by
  simp only [ofHeld, List.flatMap_eq_nil_iff, FragmentGroup.problems_eq_nil_iff]
  constructor
  · intro all identifier
    by_cases unnamed : fragmentsNamed fragments identifier = []
    · exact unnamed ▸ mergeable_nil
    · exact all ⟨identifier, _⟩ ((registers.mem_groups _).mpr ⟨rfl, unnamed⟩)
  · intro all group member
    rw [((registers.mem_groups group).mp member).1]
    exact all group.identifier

theorem mem_definitions_iff (registers : corpus.Registers fragments) {definition : RawDefinition} :
    definition ∈ (ofHeld policy interner corpus.groups).definitions ↔
      ∃ together : Fragments, together.toList = fragmentsNamed fragments definition.identifier
        ∧ Mergeable policy together.toList
        ∧ definition = together.definition policy definition.identifier := by
  simp only [ofHeld, List.mem_filterMap, FragmentGroup.definition?_eq_some_iff]
  constructor
  · rintro ⟨group, member, mergeable, together, same, rfl⟩
    have named := ((registers.mem_groups group).mp member).1
    exact ⟨together, same.trans named, same ▸ mergeable, rfl⟩
  · rintro ⟨together, same, mergeable, equal⟩
    refine ⟨⟨definition.identifier, together.toList⟩, ?_, mergeable, together, rfl, equal⟩
    exact (registers.mem_groups _).mpr ⟨same, List.cons_ne_nil _ _⟩

theorem fragments_of_definition (registers : corpus.Registers fragments)
    {definition : RawDefinition}
    (member : definition ∈ (ofHeld policy interner corpus.groups).definitions) :
    ∃ together : Fragments,
      (∀ fragment ∈ together.toList, fragment ∈ fragments ∧ fragment.identifier = definition.identifier)
        ∧ Mergeable policy together.toList
        ∧ definition = together.definition policy definition.identifier := by
  obtain ⟨together, same, mergeable, equal⟩ := (mem_definitions_iff registers).mp member
  exact ⟨together, fun fragment inside => mem_fragmentsNamed.mp (same ▸ inside), mergeable, equal⟩

theorem definition_of_fragment (registers : corpus.Registers fragments) {fragment : Fragment}
    (member : fragment ∈ fragments)
    (mergeable : Mergeable policy (fragmentsNamed fragments fragment.identifier)) :
    ∃ together : Fragments, fragment ∈ together.toList ∧ Mergeable policy together.toList
      ∧ together.definition policy fragment.identifier
        ∈ (ofHeld policy interner corpus.groups).definitions := by
  have inside := mem_fragmentsNamed.mpr ⟨member, rfl⟩
  cases named : fragmentsNamed fragments fragment.identifier with
  | nil =>
    rw [named] at inside
    nomatch inside
  | cons first others =>
    rw [named] at inside mergeable
    refine ⟨⟨first, others⟩, inside, mergeable, (mem_definitions_iff registers).mpr ?_⟩
    exact ⟨⟨first, others⟩, named.symm, mergeable, rfl⟩

theorem mem_failed_iff (registers : corpus.Registers fragments) {identifier : Identifier} :
    identifier ∈ (ofHeld policy interner corpus.groups).failed ↔
      ¬ Mergeable policy (fragmentsNamed fragments identifier) := by
  simp only [ofHeld, List.mem_filterMap, FragmentGroup.failed?_eq_some_iff]
  constructor
  · rintro ⟨group, member, rfl, unmergeable⟩
    rwa [← ((registers.mem_groups group).mp member).1]
  · intro unmergeable
    have named : fragmentsNamed fragments identifier ≠ [] :=
      fun unnamed => unmergeable (unnamed ▸ mergeable_nil)
    exact ⟨⟨identifier, _⟩, (registers.mem_groups _).mpr ⟨rfl, named⟩, rfl, unmergeable⟩

theorem isMerge_of_mem_problems {groups : List FragmentGroup} {problem : Problem}
    (member : problem ∈ (ofHeld policy interner groups).problems) : problem.code.isMerge := by
  obtain ⟨group, -, isProblem⟩ := List.mem_flatMap.mp member
  obtain ⟨cause, isMerge, rfl⟩ := FragmentGroup.exists_cause_of_mem_problems isProblem
  exact isMerge

theorem names_of_lookups (registers : corpus.Registers fragments) {definition : RawDefinition}
    (member : definition ∈ (ofHeld policy interner corpus.groups).definitions) {name : Identifier}
    (isName : name ∈ definition.lookups) : ∃ fragment ∈ fragments, name ∈ fragment.names := by
  obtain ⟨together, inside, mergeable, equal⟩ := fragments_of_definition registers member
  rcases List.mem_cons.mp isName with rfl | isName
  · have first := inside together.first List.mem_cons_self
    exact ⟨_, first.1, first.2 ▸ List.mem_cons_self⟩
  · rw [equal] at isName
    obtain ⟨occurrence, isOccurrence, isName⟩ := List.mem_flatMap.mp isName
    obtain ⟨fragment, member, isOccurrence⟩ := mergeable.mem_occurrences_body.mp isOccurrence
    refine ⟨fragment, (inside fragment member).1, ?_⟩
    exact List.mem_cons_of_mem _ (List.mem_cons_of_mem _
      (Body.names_of_mem_occurrences isOccurrence isName))

theorem holds_group (registers : corpus.Registers fragments)
    (held : ∀ fragment ∈ fragments, ∀ name ∈ fragment.names, interner.Holds name) :
    ∀ group ∈ corpus.groups, interner.Holds group.identifier := by
  intro group isGroup
  obtain ⟨fragment, member, same⟩ := registers.exists_fragment isGroup
  exact same ▸ held fragment member _ List.mem_cons_self

theorem holds_lookups (registers : corpus.Registers fragments)
    (held : ∀ fragment ∈ fragments, ∀ name ∈ fragment.names, interner.Holds name) :
    ∀ definition ∈ (ofHeld policy interner corpus.groups).definitions,
      ∀ name ∈ definition.lookups, interner.Holds name := by
  intro definition isDefinition name isName
  obtain ⟨fragment, member, written⟩ := names_of_lookups registers isDefinition isName
  exact held fragment member name written

theorem nodup_definitions (registers : corpus.Registers fragments) :
    ((ofHeld policy interner corpus.groups).definitions.map (·.identifier)).Nodup := by
  rw [List.nodup_iff_pairwise_ne, List.pairwise_map]
  refine List.Pairwise.filterMap _ ?_ registers.ordered
  intro one other before definition isDefinition definition' isDefinition' same
  obtain ⟨-, _, -, rfl⟩ := FragmentGroup.definition?_eq_some_iff.mp isDefinition
  obtain ⟨-, _, -, rfl⟩ := FragmentGroup.definition?_eq_some_iff.mp isDefinition'
  exact Identifier.ne_of_raw_lt before same

end Merged

namespace Model

variable (policy : AttributePolicy) (interner : Interner)

/-- The outcome of a build whose names are all held. -/
def ofHeld (corpus : Corpus) : Except Report Model :=
  let merged := Merged.ofHeld policy interner corpus.groups
  let resolution := Resolution.ofHeld interner merged.failed merged.definitions
  match merged.problems ++ resolution.problems with
  | [] => .ok ⟨resolution.definitions⟩
  | problems => .error (.ofProblems problems)

theorem gives_ofCorpus (corpus : Corpus) :
    Gives ((∀ group ∈ corpus.groups, interner.Holds group.identifier)
        ∧ ∀ definition ∈ (Merged.ofHeld policy interner corpus.groups).definitions,
            ∀ name ∈ definition.lookups, interner.Holds name)
      (ofCorpus policy interner corpus) (ofHeld policy interner corpus) := by
  suffices all : Gives ((∀ group ∈ corpus.groups, interner.Holds group.identifier)
      ∧ (∀ definition ∈ (Merged.ofHeld policy interner corpus.groups).definitions,
          ∀ name ∈ definition.lookups, interner.Holds name) ∧ True)
      (ofCorpus policy interner corpus) (ofHeld policy interner corpus) by
    exact all.mono fun held => ⟨held.1, held.2, trivial⟩
  refine (Merged.gives_ofGroups policy interner corpus.groups).bind ?_
  refine (Resolution.gives_ofDefinitions interner _ _).bind ?_
  unfold ofHeld
  dsimp only
  generalize (Merged.ofHeld policy interner corpus.groups).problems ++ _ = problems
  cases problems <;> exact Gives.pure _

theorem ofCorpus_eq_ofHeld {policy : AttributePolicy} {interner : Interner}
    {fragments : List Fragment}
    (held : ∀ fragment ∈ fragments, ∀ name ∈ fragment.names, interner.Holds name) :
    ofCorpus policy interner (.ofFragments fragments)
      = .ok (ofHeld policy interner (.ofFragments fragments)) := by
  have registers := Corpus.registers_ofFragments fragments
  exact (gives_ofCorpus policy interner _).eq_ok
    ⟨Merged.holds_group registers held, Merged.holds_lookups registers held⟩

theorem ofHeld_eq_ok_iff {policy : AttributePolicy} {interner : Interner} {corpus : Corpus}
    {fragments : List Fragment} (registers : corpus.Registers fragments) {model : Model} :
    ofHeld policy interner corpus = .ok model ↔
      (∀ identifier, Mergeable policy (fragmentsNamed fragments identifier))
        ∧ (Resolution.ofHeld interner []
            (Merged.ofHeld policy interner corpus.groups).definitions).problems = []
        ∧ model.definitions = (Resolution.ofHeld interner []
            (Merged.ofHeld policy interner corpus.groups).definitions).definitions := by
  have failed : (Merged.ofHeld policy interner corpus.groups).problems = [] →
      (Merged.ofHeld policy interner corpus.groups).failed = [] := by
    intro none
    refine List.eq_nil_iff_forall_not_mem.mpr fun identifier member => ?_
    exact (Merged.mem_failed_iff registers).mp member
      ((Merged.problems_eq_nil_iff registers).mp none identifier)
  rw [← Merged.problems_eq_nil_iff registers]
  unfold ofHeld
  dsimp only
  cases merging : (Merged.ofHeld policy interner corpus.groups).problems with
  | nil =>
    rw [List.nil_append, failed merging]
    obtain ⟨definitions⟩ := model
    cases (Resolution.ofHeld interner []
      (Merged.ofHeld policy interner corpus.groups).definitions).problems <;> simp [eq_comm]
  | cons problem problems => simp [List.cons_append]

theorem site_of_ofHeld {policy : AttributePolicy} {interner : Interner} {corpus : Corpus}
    {fragments : List Fragment} (registers : corpus.Registers fragments) {report : Report}
    (rejected : ofHeld policy interner corpus = .error report) :
    ∀ problem ∈ report.problems, ∃ fragment ∈ fragments, problem.identifier = fragment.identifier
      ∧ problem.name = interner.spell fragment.identifier := by
  unfold ofHeld at rejected
  dsimp only at rejected
  split at rejected
  · nomatch rejected
  · rw [← Except.error.inj rejected]
    intro problem member
    rcases List.mem_append.mp (List.mem_mergeSort.mp member) with merging | resolving
    · obtain ⟨group, isGroup, isProblem⟩ := List.mem_flatMap.mp merging
      obtain ⟨fragment, isFragment, named⟩ := registers.exists_fragment isGroup
      exact ⟨fragment, isFragment, named ▸ FragmentGroup.site_of_mem_problems isProblem⟩
    · obtain ⟨definition, isDefinition, site⟩ := Scope.site_of_mem_resolution resolving
      have merged := (List.mergeSort_perm _ _).mem_iff.mp isDefinition
      obtain ⟨together, inside, -⟩ := Merged.fragments_of_definition registers merged
      obtain ⟨isFragment, named⟩ := inside together.first List.mem_cons_self
      exact ⟨together.first, isFragment, named ▸ site⟩

end Model

end WebIdl
