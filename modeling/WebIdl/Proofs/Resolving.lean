import WebIdl.Proofs.Ancestry
import WebIdl.Proofs.Interning
import WebIdl.Proofs.Occurrences
import WebIdl.Proofs.StableOrder

namespace WebIdl

open Reporting (Adds)

theorem gives_lookup (interner : Interner) (name : Identifier) :
    Gives (interner.Holds name) (interner.lookup name) (interner.spell name) := by
  unfold Interner.lookup Interner.Holds Interner.spell
  cases interner.spelling? name with
  | none => exact .inr ⟨by simp, _, rfl⟩
  | some spelling => exact .inl rfl

namespace Position

def names : Position → List Identifier
  | .attr name | .operationReturn name | .constant name | .dictionaryMember name => [name]
  | .operationArgument operation argument => [argument, operation]
  | .constructorArgument argument | .callbackArgument argument => [argument]
  | .callbackReturn | .typedefTarget | .inheritance | .includes => []

def operationText (spell : Identifier → String) (name : Identifier) : String :=
  if name.isEmpty then "anonymous operation" else s!"operation `{spell name}`"

def describe (spell : Identifier → String) : Position → String
  | .attr name => s!"attribute `{spell name}`"
  | .operationReturn name => s!"return type of {operationText spell name}"
  | .operationArgument name argument =>
    s!"argument `{spell argument}` of {operationText spell name}"
  | .constructorArgument argument => s!"argument `{spell argument}` of constructor"
  | .constant name => s!"constant `{spell name}`"
  | .dictionaryMember name => s!"dictionary member `{spell name}`"
  | .callbackReturn => "return type"
  | .callbackArgument argument => s!"argument `{spell argument}`"
  | .typedefTarget => "aliased type"
  | .inheritance => "inheritance"
  | .includes => "includes statement"

theorem gives_operation (interner : Interner) (name : Identifier) :
    Gives (interner.Holds name) (Position.text.operation interner name)
      (operationText interner.spell name) := by
  unfold Position.text.operation operationText
  split
  · exact (Gives.pure _).mono fun _ => trivial
  · exact (gives_lookup interner name).map fun spelling => s!"operation `{spelling}`"

theorem gives_text (interner : Interner) (position : Position) :
    Gives (∀ name ∈ position.names, interner.Holds name) (position.text interner)
      (position.describe interner.spell) := by
  have single (name : Identifier) (f : String → String) :
      Gives (∀ other ∈ [name], interner.Holds other) (do return f (← interner.lookup name))
        (f (interner.spell name)) :=
    ((gives_lookup interner name).map f).mono fun all => all name (by simp)
  cases position with
  | attr name => exact single name fun spelling => s!"attribute `{spelling}`"
  | operationReturn name =>
    exact ((gives_operation interner name).map fun text => s!"return type of {text}").mono
      fun all => all name (by simp [names])
  | operationArgument name argument =>
    have rest := (gives_operation interner name).map fun text =>
      s!"argument `{interner.spell argument}` of {text}"
    have both : Gives _ (interner.lookup argument >>= fun spelling => do
        return s!"argument `{spelling}` of {← Position.text.operation interner name}") _ :=
      (gives_lookup interner argument).bind rest
    exact both.mono fun all => ⟨all argument (by simp [names]), all name (by simp [names])⟩
  | constructorArgument argument =>
    exact single argument fun spelling => s!"argument `{spelling}` of constructor"
  | constant name => exact single name fun spelling => s!"constant `{spelling}`"
  | dictionaryMember name => exact single name fun spelling => s!"dictionary member `{spelling}`"
  | callbackArgument argument => exact single argument fun spelling => s!"argument `{spelling}`"
  | callbackReturn | typedefTarget | inheritance | includes =>
    exact (Gives.pure _).mono fun _ => trivial

end Position

def Occurrence.names (occurrence : Occurrence) : List Identifier :=
  occurrence.name :: occurrence.position.names

def Occurrence.Held (interner : Interner) (occurrence : Occurrence) : Prop :=
  ∀ name ∈ occurrence.names, interner.Holds name

def Definition.lookups (definition : RawDefinition) : List Identifier :=
  definition.identifier :: definition.body.occurrences.flatMap (·.names)

namespace Scope

variable (scope : Scope)

def referent (name : Identifier) : Referent :=
  match BuiltinType.ofSpelling? (scope.interner.spell name) with
  | some type => .builtin type
  | none => ((scope.handle? name).map Referent.definition).getD (.builtin .any)

def reference? (expected : Kind) (name : Identifier) : Option Handle :=
  match scope.find? name with
  | some (definition, place) =>
    if definition.kind = expected then some ⟨name, .ofNat place⟩ else none
  | none => none

def unresolved? (locations : Locations) (position : Position) (name : Identifier) :
    Option Problem.Cause :=
  if name ∈ scope.failed then none
  else some (.unresolvedReference (scope.interner.spell name)
    (position.describe scope.interner.spell) locations)

def causeAt? (locations : Locations) : Occurrence → Option Problem.Cause
  | .type position name =>
    match BuiltinType.ofSpelling? (scope.interner.spell name) with
    | some _ => none
    | none =>
      match scope.find? name with
      | some _ => none
      | none => scope.unresolved? locations position name
  | .reference expected position name =>
    match scope.find? name with
    | some (definition, _) =>
      if definition.kind = expected then none
      else some (.invalidReference (scope.interner.spell name)
        (position.describe scope.interner.spell) expected definition.kind locations)
    | none => scope.unresolved? locations position name

def problemsAt (site : Site) (occurrence : Occurrence) : List Problem :=
  ((scope.causeAt? site.locations occurrence).map (⟨site.identifier, site.name, ·⟩)).toList

/-- A name is unresolved if no definition has it, and for a type only if no builtin type has it. -/
def Unresolved (occurrence : Occurrence) : Prop :=
  scope.find? occurrence.name = none ∧ occurrence.name ∉ scope.failed
    ∧ occurrence.Satisfies
      (fun name => BuiltinType.ofSpelling? (scope.interner.spell name) = none) fun _ _ => True

theorem adds_reportUnresolved (site : Site) (position : Position) (name : Identifier) :
    Adds (name ∉ scope.failed → ∀ other ∈ name :: position.names, scope.interner.Holds other)
      (scope.reportUnresolved site position name) ()
      ((scope.unresolved? site.locations position name).map
        (⟨site.identifier, site.name, ·⟩)).toList := by
  unfold reportUnresolved unresolved?
  by_cases failed : name ∈ scope.failed
  · have skipped : scope.failed.contains name := List.contains_iff_mem.mpr failed
    rw [if_pos failed]
    simp only [skipped]
    exact (Adds.pure ()).mono fun _ => trivial
  · have kept : scope.failed.contains name = false := by simpa using failed
    rw [if_neg failed]
    simp only [kept]
    have described : Adds _ (position.text scope.interner >>= fun described =>
        site.report (.unresolvedReference (scope.interner.spell name) described site.locations))
        () _ :=
      (Adds.lift (Position.gives_text scope.interner position)).bind (Adds.report site _)
    have both : Adds _ (scope.interner.lookup name >>= fun referenced => do
        site.report (.unresolvedReference referenced (← position.text scope.interner)
          site.locations)) () _ :=
      (Adds.lift (gives_lookup scope.interner name)).bind described
    refine both.mono fun needed => ?_
    obtain ⟨held, labels⟩ := List.forall_mem_cons.mp (needed failed)
    exact ⟨held, labels, trivial⟩

theorem adds_resolveName (site : Site) (position : Position) (name : Identifier) :
    Adds (scope.interner.Holds name ∧ (scope.Unresolved (.type position name) →
        ∀ label ∈ position.names, scope.interner.Holds label))
      (scope.resolveName site position name) (scope.referent name)
      (scope.problemsAt site (.type position name)) := by
  suffices both : Adds (scope.interner.Holds name ∧ (scope.Unresolved (.type position name) →
      ∀ other ∈ name :: position.names, scope.interner.Holds other))
      (scope.resolveName site position name) (scope.referent name)
      ([] ++ scope.problemsAt site (.type position name)) by
    exact both.mono fun needed => ⟨needed.1, fun unresolved =>
      List.forall_mem_cons.mpr ⟨needed.1, needed.2 unresolved⟩⟩
  refine (Adds.lift (gives_lookup scope.interner name)).bind ?_
  simp only [referent, problemsAt, causeAt?, handle?]
  cases spelled : BuiltinType.ofSpelling? (scope.interner.spell name) with
  | some type => exact (Adds.pure _).mono fun _ => trivial
  | none =>
    cases found : scope.find? name with
    | some known => exact (Adds.pure _).mono fun _ => trivial
    | none =>
      have reported := (scope.adds_reportUnresolved site position name).map
        fun _ => Referent.builtin .any
      exact reported.mono fun needed merged => needed ⟨found, merged, spelled⟩

theorem adds_resolveReference (site : Site) (expected : Kind) (position : Position)
    (name : Identifier) :
    Adds ((Occurrence.reference expected position name).Held scope.interner)
      (scope.resolveReference site expected position name) (scope.reference? expected name)
      (scope.problemsAt site (.reference expected position name)) := by
  simp only [resolveReference, reference?, problemsAt, causeAt?]
  cases scope.find? name with
  | none =>
    have reported := (scope.adds_reportUnresolved site position name).map
      fun _ => (none : Option Handle)
    exact reported.mono fun held _ => held
  | some known =>
    obtain ⟨definition, place⟩ := known
    by_cases same : definition.kind = expected
    · simp only [if_pos same]
      exact (Adds.pure _).mono fun _ => trivial
    · simp only [if_neg same]
      have reported := (Adds.report site (.invalidReference (scope.interner.spell name)
        (position.describe scope.interner.spell) expected definition.kind site.locations)).map
          fun _ => (none : Option Handle)
      have described : Adds _ (position.text scope.interner >>= fun described => do
          site.report (.invalidReference (scope.interner.spell name) described expected
            definition.kind site.locations)
          return none) none _ :=
        (Adds.lift (Position.gives_text scope.interner position)).bind reported
      have both : Adds _ (scope.interner.lookup name >>= fun referenced => do
          let described ← position.text scope.interner
          site.report (.invalidReference referenced described expected definition.kind
            site.locations)
          return none) none _ :=
        (Adds.lift (gives_lookup scope.interner name)).bind described
      refine both.mono fun held => ⟨held name List.mem_cons_self, fun other member => ?_, trivial⟩
      exact held other (List.mem_cons_of_mem _ member)

theorem adds_resolveBody (site : Site) (body : RawBody) :
    Adds (∀ occurrence ∈ body.occurrences, occurrence.Held scope.interner)
      (scope.resolveBody site body) (body.map scope.reference? (·.map scope.referent))
      (body.occurrences.flatMap (scope.problemsAt site)) := by
  refine adds_body (fun position name => ?_) (scope.adds_resolveReference site) body
  refine (scope.adds_resolveName site position name).mono fun held => ?_
  obtain ⟨held, labels⟩ := List.forall_mem_cons.mp held
  exact ⟨held, fun _ => labels⟩

def siteOf (definition : RawDefinition) : Site where
  identifier := definition.identifier
  name := scope.interner.spell definition.identifier
  locations := definition.declaration.locations

def resolved (definition : RawDefinition) : ResolvedDefinition :=
  ⟨definition.declaration, definition.body.map scope.reference? (·.map scope.referent)⟩

def problemsOf (definition : RawDefinition) : List Problem :=
  definition.body.occurrences.flatMap (scope.problemsAt (scope.siteOf definition))

theorem adds_resolveDefinition (definition : RawDefinition) :
    Adds (∀ name ∈ definition.lookups, scope.interner.Holds name)
      (scope.resolveDefinition definition) (scope.resolved definition)
      (scope.problemsOf definition) := by
  have body := (scope.adds_resolveBody (scope.siteOf definition) definition.body).map
    fun body => (⟨definition.declaration, body⟩ : ResolvedDefinition)
  have both : Adds _ (scope.interner.lookup definition.identifier >>= fun name => do
      return (⟨definition.declaration, ← scope.resolveBody
        ⟨definition.identifier, name, definition.declaration.locations⟩ definition.body⟩ :
          ResolvedDefinition)) _ _ :=
    (Adds.lift (gives_lookup scope.interner definition.identifier)).bind body
  refine both.mono fun held => ⟨held _ List.mem_cons_self, fun occurrence member name isName => ?_⟩
  exact held name (List.mem_cons_of_mem _ (List.mem_flatMap.mpr ⟨occurrence, member, isName⟩))

def cycleProblem (cycle : List Identifier) : Option Problem :=
  match Inheritance.fromLeast (cycle.map fun name => (name, scope.interner.spell name)) with
  | [] => none
  | (identifier, name) :: rest =>
    let locations := ((scope.find? identifier).map (·.1.declaration.locations)).getD .empty
    some ⟨identifier, name, .inheritanceCycle (name :: rest.map (·.2) ++ [name]) locations⟩

theorem gives_cycleProblem (cycle : List Identifier) :
    Gives (∀ name ∈ cycle, scope.interner.Holds name) (scope.cycleProblem? cycle)
      (scope.cycleProblem cycle) := by
  have named : Gives (∀ name ∈ cycle, scope.interner.Holds name)
      (cycle.mapM fun name => return (name, ← scope.interner.lookup name))
      (cycle.map fun name => (name, scope.interner.spell name)) :=
    Gives.mapM fun name _ => (gives_lookup scope.interner name).map fun spelling => (name, spelling)
  suffices both : Gives ((∀ name ∈ cycle, scope.interner.Holds name) ∧ True)
      (scope.cycleProblem? cycle) (scope.cycleProblem cycle) by
    exact both.mono fun held => ⟨held, trivial⟩
  refine named.bind ?_
  unfold cycleProblem
  cases Inheritance.fromLeast (cycle.map fun name => (name, scope.interner.spell name)) with
  | nil => exact Gives.pure none
  | cons least rest => exact Gives.pure _

def cycles (definitions : List RawDefinition) : List (List Identifier) :=
  Inheritance.loops scope.parent? (definitions.map (·.identifier))
    (definitions.map (·.identifier))

theorem holds_cycle {scope : Scope} {definitions : List RawDefinition}
    (held : ∀ definition ∈ definitions, scope.interner.Holds definition.identifier) :
    ∀ cycle ∈ scope.cycles definitions, ∀ name ∈ cycle, scope.interner.Holds name := by
  intro cycle isCycle name inside
  have known := (Inheritance.isCycle_of_mem_loops isCycle).2 name inside
  obtain ⟨definition, isDefinition, rfl⟩ := List.mem_map.mp known
  exact held definition isDefinition

theorem gives_cycleProblems (definitions : List RawDefinition) :
    Gives (∀ definition ∈ definitions, scope.interner.Holds definition.identifier)
      (scope.cycleProblems definitions)
      ((scope.cycles definitions).filterMap scope.cycleProblem) := by
  have all : Gives (∀ cycle ∈ scope.cycles definitions, ∀ name ∈ cycle, scope.interner.Holds name)
      (scope.cycleProblems definitions) ((scope.cycles definitions).filterMap scope.cycleProblem) :=
    Gives.filterMapM fun cycle _ => scope.gives_cycleProblem cycle
  exact all.mono holds_cycle

end Scope

def sortedByName (spell : Identifier → String) (definitions : List RawDefinition) :
    List RawDefinition :=
  definitions.mergeSort fun one other => spell one.identifier ≤ spell other.identifier

theorem gives_sortByName (interner : Interner) (definitions : List RawDefinition) :
    Gives (∀ definition ∈ definitions, interner.Holds definition.identifier)
      (sortByName interner definitions) (sortedByName interner.spell definitions) := by
  have named : Gives (∀ definition ∈ definitions, interner.Holds definition.identifier)
      (definitions.mapM fun definition =>
        return (← interner.lookup definition.identifier, definition))
      (definitions.map fun definition => (interner.spell definition.identifier, definition)) :=
    Gives.mapM fun definition _ =>
      (gives_lookup interner definition.identifier).map fun spelling => (spelling, definition)
  have same : (sortedByName interner.spell definitions).map
        (fun definition => (interner.spell definition.identifier, definition))
      = (definitions.map fun definition => (interner.spell definition.identifier, definition)).mergeSort
          fun one other => one.1 ≤ other.1 :=
    List.map_mergeSort fun _ _ _ _ => rfl
  have sorted := named.map fun named =>
    (named.mergeSort fun one other => one.1 ≤ other.1).map (·.2)
  rw [← same, List.map_map] at sorted
  have unpaired : (sortedByName interner.spell definitions).map
      ((·.2) ∘ fun definition => (interner.spell definition.identifier, definition))
        = sortedByName interner.spell definitions := List.map_id _
  rw [unpaired] at sorted
  exact sorted

namespace Scope

variable (scope : Scope)

def resolution (definitions : List RawDefinition) : Resolution where
  definitions := definitions.map scope.resolved
  problems :=
    (scope.cycles definitions).filterMap scope.cycleProblem ++ definitions.flatMap scope.problemsOf

theorem causeAt?_eq_some_iff {scope : Scope} {locations : Locations} {occurrence : Occurrence}
    {cause : Problem.Cause} : scope.causeAt? locations occurrence = some cause ↔
      (scope.Unresolved occurrence ∧ cause = .unresolvedReference
        (scope.interner.spell occurrence.name)
        (occurrence.position.describe scope.interner.spell) locations)
      ∨ ∃ expected position name known, occurrence = .reference expected position name
        ∧ scope.find? name = some known ∧ known.1.kind ≠ expected
        ∧ cause = .invalidReference (scope.interner.spell name)
          (position.describe scope.interner.spell) expected known.1.kind locations := by
  cases occurrence with
  | type position name =>
    simp only [causeAt?, unresolved?, Unresolved, Occurrence.name, Occurrence.position,
      Occurrence.Satisfies]
    cases BuiltinType.ofSpelling? (scope.interner.spell name) with
    | some builtin => simp
    | none => cases scope.find? name <;> simp [eq_comm]
  | reference expected position name =>
    simp only [causeAt?, unresolved?, Unresolved, Occurrence.name, Occurrence.position,
      Occurrence.Satisfies]
    cases found : scope.find? name with
    | none =>
      simp only [Occurrence.reference.injEq, Option.ite_none_left_eq_some, Option.some.injEq]
      constructor
      · rintro ⟨merged, rfl⟩
        exact .inl ⟨⟨trivial, merged, trivial⟩, rfl⟩
      · rintro (⟨⟨-, merged, -⟩, rfl⟩ | ⟨_, _, _, _, ⟨-, -, rfl⟩, isKnown, -⟩)
        · exact ⟨merged, rfl⟩
        · exact absurd (found.symm.trans isKnown) (Option.some_ne_none _).symm
    | some known =>
      simp only [Occurrence.reference.injEq, Option.ite_none_left_eq_some, Option.some.injEq,
        reduceCtorEq, false_and, false_or]
      constructor
      · rintro ⟨differs, rfl⟩
        exact ⟨_, _, _, known, ⟨rfl, rfl, rfl⟩, found, differs, rfl⟩
      · rintro ⟨_, _, _, other, ⟨rfl, rfl, rfl⟩, isKnown, differs, rfl⟩
        obtain rfl : known = other := Option.some.inj (found.symm.trans isKnown)
        exact ⟨differs, rfl⟩

theorem exists_names_of_cycleProblem {scope : Scope} {cycle : List Identifier} {problem : Problem}
    (reported : scope.cycleProblem cycle = some problem) :
    ∃ identifier ∈ cycle, ∃ names locations,
      problem = ⟨identifier, scope.interner.spell identifier, .inheritanceCycle names locations⟩
        ∧ ∀ name ∈ names, ∃ item ∈ cycle, scope.interner.spell item = name := by
  unfold cycleProblem at reported
  split at reported
  · nomatch reported
  · rename_i identifier name rest turned
    have onCycle : ∀ named ∈ (identifier, name) :: rest,
        named.1 ∈ cycle ∧ scope.interner.spell named.1 = named.2 := by
      intro named member
      obtain ⟨item, inside, rfl⟩ :=
        List.mem_map.mp (Inheritance.mem_of_mem_fromLeast (turned ▸ member))
      exact ⟨inside, rfl⟩
    have first : identifier ∈ cycle ∧ scope.interner.spell identifier = name :=
      onCycle _ List.mem_cons_self
    obtain ⟨inside, rfl⟩ := first
    refine ⟨identifier, inside, _, _, (Option.some.inj reported).symm, ?_⟩
    simp only [List.forall_mem_append, List.forall_mem_cons, List.forall_mem_map]
    refine ⟨⟨⟨identifier, inside, rfl⟩, fun named member => ?_⟩, ⟨identifier, inside, rfl⟩, nofun⟩
    exact ⟨named.1, onCycle named (List.mem_cons_of_mem _ member)⟩

theorem mem_problems_resolution {scope : Scope} {definitions : List RawDefinition}
    {problem : Problem} :
    problem ∈ (scope.resolution definitions).problems ↔
      (∃ cycle ∈ scope.cycles definitions, scope.cycleProblem cycle = some problem)
        ∨ ∃ definition ∈ definitions, ∃ occurrence ∈ definition.body.occurrences, ∃ cause,
          scope.causeAt? definition.declaration.locations occurrence = some cause ∧
            problem
              = ⟨definition.identifier, scope.interner.spell definition.identifier, cause⟩ := by
  simp only [resolution, problemsOf, problemsAt, siteOf, List.mem_append, List.mem_filterMap,
    List.mem_flatMap, Option.mem_toList, Option.map_eq_some_iff,
    eq_comm (b := problem)]

theorem site_of_mem_resolution {scope : Scope} {definitions : List RawDefinition}
    {problem : Problem} (member : problem ∈ (scope.resolution definitions).problems) :
    ∃ definition ∈ definitions, problem.identifier = definition.identifier
      ∧ problem.name = scope.interner.spell definition.identifier := by
  rcases mem_problems_resolution.mp member with
    ⟨cycle, isCycle, reported⟩ | ⟨definition, isDefinition, _, _, _, _, rfl⟩
  · obtain ⟨identifier, inside, _, _, rfl, -⟩ := exists_names_of_cycleProblem reported
    have known := (Inheritance.isCycle_of_mem_loops isCycle).2 identifier inside
    obtain ⟨definition, isDefinition, rfl⟩ := List.mem_map.mp known
    exact ⟨definition, isDefinition, rfl, rfl⟩
  · exact ⟨definition, isDefinition, rfl, rfl⟩

theorem gives_resolution (definitions : List RawDefinition) :
    Gives (∀ definition ∈ definitions, ∀ name ∈ definition.lookups, scope.interner.Holds name)
      (do
        let cycles ← scope.cycleProblems definitions
        let (resolved, problems) ← (definitions.mapM scope.resolveDefinition).run cycles
        return (⟨resolved, problems⟩ : Resolution))
      (scope.resolution definitions) := by
  have resolve : Adds _ (definitions.mapM scope.resolveDefinition) _ _ :=
    Adds.mapM fun definition _ => scope.adds_resolveDefinition definition
  have rest := (resolve ((scope.cycles definitions).filterMap scope.cycleProblem)).map
    fun (resolved, problems) => (⟨resolved, problems⟩ : Resolution)
  refine ((scope.gives_cycleProblems definitions).bind rest).mono fun held => ⟨?_, held⟩
  exact fun definition member => held definition member _ List.mem_cons_self

end Scope

namespace Resolution

/-- What resolving leaves if every name that it looks up is held. -/
def ofHeld (interner : Interner) (failed : List Identifier) (definitions : List RawDefinition) :
    Resolution :=
  let definitions := sortedByName interner.spell definitions
  (Scope.ofDefinitions interner definitions failed).resolution definitions

theorem gives_ofDefinitions (interner : Interner) (failed : List Identifier)
    (definitions : List RawDefinition) :
    Gives (∀ definition ∈ definitions, ∀ name ∈ definition.lookups, interner.Holds name)
      (ofDefinitions interner failed definitions) (ofHeld interner failed definitions) := by
  let ordered := sortedByName interner.spell definitions
  have rest := (Scope.ofDefinitions interner ordered failed).gives_resolution ordered
  refine ((gives_sortByName interner definitions).bind rest).mono fun held => ⟨?_, ?_⟩
  · exact fun definition member => held definition member _ List.mem_cons_self
  · exact fun definition member => held definition (List.mem_mergeSort.mp member)

end Resolution

end WebIdl
