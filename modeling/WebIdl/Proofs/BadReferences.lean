import WebIdl.Proofs.Outcome

namespace WebIdl

section
variable (interner : Interner) (definitions : List RawDefinition) (failed : List Identifier)
  (locations : Locations)

/-- What is wrong with a name at its place in a definition with the locations given. Names that
    could not be merged are not reported again. -/
inductive Occurrence.Wrong : Occurrence → Problem.Cause → Prop where
  | noType {position : Position} {name : Identifier}
      (missing : ¬ IsType definitions interner name) (merged : name ∉ failed) :
    Wrong (.type position name) (.unresolvedReference (interner.spell name)
      (position.describe interner.spell) locations)
  | noDefinition {expected : Kind} {position : Position} {name : Identifier}
      (missing : ∀ definition ∈ definitions, definition.identifier ≠ name)
      (merged : name ∉ failed) :
    Wrong (.reference expected position name) (.unresolvedReference (interner.spell name)
      (position.describe interner.spell) locations)
  | otherKind {expected : Kind} {position : Position} {name : Identifier}
      {definition : RawDefinition} (member : definition ∈ definitions)
      (named : definition.identifier = name) (differs : definition.kind ≠ expected) :
    Wrong (.reference expected position name) (.invalidReference (interner.spell name)
      (position.describe interner.spell) expected definition.kind locations)

/-- The problems are the cycles, and after them each wrong occurrence once: by the name of the
    definition, and inside a definition in the order of its occurrences. -/
structure ReportsReferences (cycles : List Problem) (ordered : List RawDefinition)
    (cause? : RawDefinition → Occurrence → Option Problem.Cause) (problems : List Problem) :
    Prop where
  code : ∀ problem ∈ cycles, problem.code = .inheritanceCycle
  perm : ordered.Perm definitions
  sorted : ordered.Pairwise fun one other =>
    interner.spell one.identifier < interner.spell other.identifier
  cause : ∀ definition occurrence cause, cause? definition occurrence = some cause
    ↔ occurrence.Wrong interner definitions failed definition.declaration.locations cause
  report : problems = cycles ++ ordered.flatMap fun definition =>
    definition.body.occurrences.filterMap fun occurrence =>
      (cause? definition occurrence).map
        (⟨definition.identifier, interner.spell definition.identifier, ·⟩)

end

variable {interner : Interner} {definitions ordered : List RawDefinition}
  {failed : List Identifier}

namespace Scope

theorem unresolved_type_iff (same : ordered.Perm definitions) {position : Position}
    {name : Identifier} :
    (ofDefinitions interner ordered failed).Unresolved (.type position name)
      ↔ ¬ IsType definitions interner name ∧ name ∉ failed := by
  have undefined : (ofDefinitions interner ordered failed).find? name = none
      ↔ ¬ ∃ definition ∈ definitions, definition.identifier = name := by
    simp only [find?_eq_none_iff, same.mem_iff, ne_eq, not_exists, not_and]
  have notBuiltin : BuiltinType.ofSpelling? (interner.spell name) = none
      ↔ ¬ ∃ builtin : BuiltinType, builtin.spelling = interner.spell name := by
    rw [← Option.not_isSome_iff_eq_none, BuiltinType.isSome_ofSpelling?_iff]
  rw [IsType, not_or, ← undefined, ← notBuiltin, and_assoc, and_comm, and_assoc]
  exact .rfl

theorem unresolved_reference_iff (same : ordered.Perm definitions) {expected : Kind}
    {position : Position} {name : Identifier} :
    (ofDefinitions interner ordered failed).Unresolved (.reference expected position name)
      ↔ (∀ definition ∈ definitions, definition.identifier ≠ name) ∧ name ∉ failed := by
  have undefined : (ofDefinitions interner ordered failed).find? name = none
      ↔ ∀ definition ∈ definitions, definition.identifier ≠ name := by
    simp only [find?_eq_none_iff, same.mem_iff]
  rw [← undefined]
  exact ⟨fun ⟨unknown, merged, _⟩ => ⟨unknown, merged⟩,
    fun ⟨unknown, merged⟩ => ⟨unknown, merged, trivial⟩⟩

theorem causeAt?_eq_some_iff_wrong (distinct : DistinctlyNamed definitions)
    (same : ordered.Perm definitions) {locations : Locations} {occurrence : Occurrence}
    {cause : Problem.Cause} :
    (ofDefinitions interner ordered failed).causeAt? locations occurrence = some cause
      ↔ occurrence.Wrong interner definitions failed locations cause := by
  rw [causeAt?_eq_some_iff]
  constructor
  · rintro (⟨unresolved, rfl⟩ | ⟨expected, position, name, known, rfl, found, differs, rfl⟩)
    · cases occurrence with
      | type position name =>
        obtain ⟨missing, merged⟩ := (unresolved_type_iff same).mp unresolved
        exact .noType missing merged
      | reference expected position name =>
        obtain ⟨missing, merged⟩ := (unresolved_reference_iff same).mp unresolved
        exact .noDefinition missing merged
    · obtain ⟨placed, named⟩ := (find?_eq_some_iff (distinct.perm same)).mp found
      exact .otherKind (same.mem_iff.mp (List.mem_of_getElem? placed)) named differs
  · intro wrong
    cases wrong with
    | noType missing merged => exact .inl ⟨(unresolved_type_iff same).mpr ⟨missing, merged⟩, rfl⟩
    | noDefinition missing merged =>
      exact .inl ⟨(unresolved_reference_iff same).mpr ⟨missing, merged⟩, rfl⟩
    | @otherKind _ _ name definition member named differs =>
      obtain ⟨place, placed⟩ := List.mem_iff_getElem?.mp (same.mem_iff.mpr member)
      have found : (ofDefinitions interner ordered failed).find? name = some (definition, place) :=
        (find?_eq_some_iff (distinct.perm same)).mpr ⟨placed, named⟩
      exact .inr ⟨_, _, name, (definition, place), rfl, found, differs, rfl⟩

theorem problemsOf_eq_filterMap (scope : Scope) (definition : RawDefinition) :
    scope.problemsOf definition = definition.body.occurrences.filterMap fun occurrence =>
      (scope.causeAt? definition.declaration.locations occurrence).map
        (⟨definition.identifier, scope.interner.spell definition.identifier, ·⟩) := by
  rw [List.filterMap_eq_flatMap_toList]
  rfl

theorem code_of_cycleProblem {scope : Scope} {cycle : List Identifier} {problem : Problem}
    (reported : scope.cycleProblem cycle = some problem) : problem.code = .inheritanceCycle := by
  obtain ⟨_, -, _, _, rfl, -⟩ := exists_names_of_cycleProblem reported
  rfl

end Scope

theorem Resolution.reportsReferences_ofHeld (distinct : DistinctlyNamed definitions)
    (held : ∀ definition ∈ definitions, ∀ name ∈ definition.lookups, interner.Holds name) :
    let ordered := sortedByName interner.spell definitions
    let scope := Scope.ofDefinitions interner ordered failed
    ReportsReferences interner definitions failed
      ((scope.cycles ordered).filterMap scope.cycleProblem) ordered
      (fun definition => scope.causeAt? definition.declaration.locations)
      (ofHeld interner failed definitions).problems := by
  intro ordered scope
  have same := sortedByName_perm interner.spell definitions
  constructor
  case code =>
    intro problem member
    obtain ⟨cycle, -, reported⟩ := List.mem_filterMap.mp member
    exact Scope.code_of_cycleProblem reported
  case perm => exact same
  case sorted =>
    exact pairwise_sortedByName (distinct.perm same) fun definition member =>
      held definition (same.mem_iff.mp member) _ List.mem_cons_self
  case cause =>
    exact fun definition occurrence cause => Scope.causeAt?_eq_some_iff_wrong distinct same
  case report =>
    have problems := funext fun definition => scope.problemsOf_eq_filterMap definition
    exact congrArg (_ ++ ordered.flatMap ·) problems

theorem Resolution.reportsReferences_of_held (distinct : DistinctlyNamed definitions)
    (held : ∀ definition ∈ definitions, ∀ name ∈ definition.lookups, interner.Holds name) :
    ∃ resolution cycles ordered cause?,
      ofDefinitions interner failed definitions = .ok resolution
        ∧ ReportsReferences interner definitions failed cycles ordered cause?
          resolution.problems :=
  ⟨_, _, _, _, (gives_ofDefinitions interner failed definitions).eq_ok held,
    reportsReferences_ofHeld distinct held⟩

/-- `Node` inherits from a dictionary, includes itself and a name without a definition, and has an
    attribute of type `(Node? or record<long, Gone> or Missing)`. -/
def RawDefinition.tangled : List RawDefinition :=
  [⟨⟨⟨0x20000000⟩, .empty, .unset, [], [], .empty⟩,
      .interface (some ⟨0x30000002⟩)
        [⟨.attr ⟨0x30000002⟩ (.union [.wrapped .nullable (.leaf ⟨0x20000000⟩),
          .record (.leaf ⟨0xC0000002⟩) (.leaf ⟨0xF0000004⟩), .leaf ⟨0x60000002⟩]) .empty,
          .empty, .empty, ⟨.unspecified, false⟩⟩]
        [⟨0x60000002⟩, ⟨0x20000000⟩]⟩,
    ⟨⟨⟨0x30000002⟩, .empty, .unset, [], [], .empty⟩, .dictionary none []⟩]

def Resolution.tangled : Resolution where
  definitions :=
    [⟨⟨⟨0x20000000⟩, .empty, .unset, [], [], .empty⟩,
        .interface none
          [⟨.attr ⟨0x30000002⟩ (.union [.wrapped .nullable (.leaf (.definition ⟨⟨0x20000000⟩, 0⟩)),
            .record (.leaf (.builtin .long)) (.leaf (.builtin .any)), .leaf (.builtin .any)]) .empty,
            .empty, .empty, ⟨.unspecified, false⟩⟩] []⟩,
      ⟨⟨⟨0x30000002⟩, .empty, .unset, [], [], .empty⟩, .dictionary none []⟩]
  problems :=
    [⟨⟨0x20000000⟩, "Node", .invalidReference "next" "inheritance" .interface .dictionary .empty⟩,
      ⟨⟨0x20000000⟩, "Node", .unresolvedReference "Missing" "includes statement" .empty⟩,
      ⟨⟨0x20000000⟩, "Node",
        .invalidReference "Node" "includes statement" .interfaceMixin .interface .empty⟩,
      ⟨⟨0x20000000⟩, "Node", .unresolvedReference "Missing" "attribute `next`" .empty⟩]

/-- `Gone` could not be merged, and no problem is reported of it. -/
theorem Resolution.reportsReferences_tangled : DistinctlyNamed RawDefinition.tangled
    ∧ (∀ definition ∈ RawDefinition.tangled, ∀ name ∈ definition.lookups,
      (Interner.new.holdAll ["Node", "next", "Missing", "Gone"]).Holds name)
    ∧ ofDefinitions (Interner.new.holdAll ["Node", "next", "Missing", "Gone"]) [⟨0xF0000004⟩]
      RawDefinition.tangled = .ok tangled
    ∧ ∃ cycles ordered cause?,
      ReportsReferences (Interner.new.holdAll ["Node", "next", "Missing", "Gone"])
        RawDefinition.tangled [⟨0xF0000004⟩] cycles ordered cause? tangled.problems := by
  have distinct : DistinctlyNamed RawDefinition.tangled := by
    unfold DistinctlyNamed
    decide
  have held : ∀ definition ∈ RawDefinition.tangled, ∀ name ∈ definition.lookups,
      (Interner.new.holdAll ["Node", "next", "Missing", "Gone"]).Holds name := by
    decide +kernel
  have sorted : sortedByName (Interner.new.holdAll ["Node", "next", "Missing", "Gone"]).spell
      RawDefinition.tangled = RawDefinition.tangled :=
    sortedByName_eq (.refl _) (by decide +kernel)
  have resolved : ofDefinitions (Interner.new.holdAll ["Node", "next", "Missing", "Gone"])
      [⟨0xF0000004⟩] RawDefinition.tangled = .ok tangled := by
    rw [(gives_ofDefinitions _ _ _).eq_ok held, ofHeld, sorted]
    decide +kernel
  obtain ⟨resolution, cycles, ordered, cause?, same, reports⟩ :=
    reportsReferences_of_held distinct held
  obtain rfl : resolution = tangled := Except.ok.inj (same.symm.trans resolved)
  exact ⟨distinct, held, resolved, cycles, ordered, cause?, reports⟩

end WebIdl
