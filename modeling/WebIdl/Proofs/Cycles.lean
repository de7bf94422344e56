import WebIdl.Proofs.Acceptance
import WebIdl.Proofs.Rounds

namespace WebIdl

open Inheritance (ComesRound IsCycle lineage turned)

section
variable (definitions : List RawDefinition)

def parentIn? (child : Identifier) : Option Identifier := do
  match (← definitions.find? (·.identifier = child)).body with
  | .interface parent _ _ => parent.filter (isNamed .interface)
  | .dictionary parent _ => parent.filter (isNamed .dictionary)
  | _ => none
where
  isNamed (kind : Kind) (name : Identifier) : Bool :=
    definitions.any fun other => other.identifier = name ∧ other.kind = kind

/-- The report of a cycle of so many definitions, told from the one given on. -/
def cycleReport (interner : Interner) (length : Nat) (definition : RawDefinition) : Problem :=
  let name := interner.spell definition.identifier
  let names := (lineage (parentIn? definitions) length definition.identifier).map interner.spell
  ⟨definition.identifier, name,
    .inheritanceCycle (names ++ [name]) definition.declaration.locations⟩

/-- The problems are the cycles among the definitions. For each there is one, which is reported
    under the least of its names, and there is no other. -/
structure ReportsCycles (interner : Interner) (problems : List Problem) : Prop where
  once : ∀ length item, ComesRound (parentIn? definitions) length item →
    ∃ least ∈ definitions, least.identifier ∈ lineage (parentIn? definitions) length item
      ∧ (∀ other ∈ lineage (parentIn? definitions) length item,
        interner.spell least.identifier ≤ interner.spell other)
      ∧ problems.filter (·.identifier ∈ lineage (parentIn? definitions) length item)
        = [cycleReport definitions interner length least]
  only : ∀ problem ∈ problems,
    ∃ length, ComesRound (parentIn? definitions) length problem.identifier

end

variable {interner : Interner} {definitions : List RawDefinition} {failed : List Identifier}

theorem DistinctlyNamed.find?_eq_some_iff (distinct : DistinctlyNamed definitions)
    {identifier : Identifier} {definition : RawDefinition} :
    definitions.find? (·.identifier = identifier) = some definition
      ↔ definition ∈ definitions ∧ definition.identifier = identifier := by
  constructor
  · exact fun found => ⟨List.mem_of_find?_eq_some found, by simpa using List.find?_some found⟩
  · rintro ⟨member, rfl⟩
    cases found : definitions.find? (·.identifier = definition.identifier) with
    | none => simpa using List.find?_eq_none.mp found definition member
    | some other =>
      have same : other.identifier = definition.identifier := by simpa using List.find?_some found
      exact congrArg some
        (List.inj_on_of_nodup_map distinct (List.mem_of_find?_eq_some found) member same)

theorem parentIn?_eq_some_iff (distinct : DistinctlyNamed definitions) {child parent : Identifier} :
    parentIn? definitions child = some parent ↔ Inherits definitions parent child := by
  have stated (definition : RawDefinition) : (match definition.body with
        | .interface parent _ _ => parent.filter (parentIn?.isNamed definitions .interface)
        | .dictionary parent _ => parent.filter (parentIn?.isNamed definitions .dictionary)
        | _ => none) = some parent
      ↔ definition.body.inherited? = some parent
        ∧ IsDefined definitions definition.kind parent := by
    rw [Definition.kind]
    cases definition.body <;> simp [Body.inherited?, Body.kind, parentIn?.isNamed, IsDefined]
  simp only [parentIn?, Option.bind_eq_bind, Option.bind_eq_some_iff, distinct.find?_eq_some_iff,
    stated, Inherits, and_assoc]

namespace Scope

theorem parent?_eq_parentIn? (interner : Interner) (failed : List Identifier)
    (distinct : DistinctlyNamed definitions) :
    (ofDefinitions interner definitions failed).parent? = parentIn? definitions := by
  funext child
  refine Option.ext fun parent => ?_
  rw [parent?_eq_some_iff distinct, parentIn?_eq_some_iff distinct]
  rfl

theorem comesRound_iff (interner : Interner) (failed : List Identifier)
    (distinct : DistinctlyNamed definitions) {length : Nat} {item : Identifier} :
    ComesRound (parentIn? definitions) length item ↔
      ∃ cycle ∈ (ofDefinitions interner definitions failed).cycles definitions,
        item ∈ cycle ∧ length = cycle.length := by
  rw [← parent?_eq_parentIn? interner failed distinct]
  exact Inheritance.comesRound_iff parent?_eq_none

theorem lineage_eq_turned (distinct : DistinctlyNamed definitions) {cycle : List Identifier}
    (isCycle : cycle ∈ (ofDefinitions interner definitions failed).cycles definitions)
    {item : Identifier} (member : item ∈ cycle) :
    lineage (parentIn? definitions) cycle.length item = turned item cycle := by
  rw [← parent?_eq_parentIn? interner failed distinct]
  exact (Inheritance.comesRound_of_mem_loops isCycle member).2

theorem cycleProblem_eq_cycleReport (distinct : DistinctlyNamed definitions)
    {cycle : List Identifier}
    (isCycle : cycle ∈ (ofDefinitions interner definitions failed).cycles definitions) :
    ∃ least ∈ definitions, least.identifier ∈ cycle
      ∧ (∀ other ∈ cycle, interner.spell least.identifier ≤ interner.spell other)
      ∧ (ofDefinitions interner definitions failed).cycleProblem cycle
        = some (cycleReport definitions interner cycle.length least) := by
  obtain ⟨goesRound, known⟩ := Inheritance.isCycle_of_mem_loops isCycle
  obtain ⟨identifier, member, minimal, named⟩ :=
    Inheritance.exists_fromLeast_eq goesRound.1 interner.spell
  obtain ⟨rest, begins, -⟩ := goesRound.exists_turned member
  obtain ⟨least, isDefinition, rfl⟩ := List.mem_map.mp (known identifier member)
  obtain ⟨place, placed⟩ := List.mem_iff_getElem?.mp isDefinition
  have found : (ofDefinitions interner definitions failed).find? least.identifier
      = some (least, place) := (find?_eq_some_iff distinct).mpr ⟨placed, rfl⟩
  refine ⟨least, isDefinition, member, minimal, ?_⟩
  have spelled : (ofDefinitions interner definitions failed).interner = interner := rfl
  unfold cycleProblem cycleReport
  rw [spelled, named, lineage_eq_turned distinct isCycle member, begins]
  simp only [List.map_cons, List.map_map, found]
  rfl

theorem filter_cycleProblems {cycle : List Identifier} {scope : Scope}
    (isCycle : cycle ∈ scope.cycles definitions) :
    ((scope.cycles definitions).filterMap scope.cycleProblem).filter (·.identifier ∈ cycle)
      = (scope.cycleProblem cycle).toList := by
  have elsewhere (others : List (List Identifier))
      (apart : ∀ other ∈ others, other.Disjoint cycle) :
      (others.filterMap scope.cycleProblem).filter (·.identifier ∈ cycle) = [] := by
    refine List.filter_eq_nil_iff.mpr fun problem reported => ?_
    obtain ⟨other, isOther, reported⟩ := List.mem_filterMap.mp reported
    obtain ⟨identifier, inside, _, _, rfl, -⟩ := exists_names_of_cycleProblem reported
    simpa using fun onCycle => apart other isOther inside onCycle
  have disjoint : (scope.cycles definitions).Pairwise List.Disjoint :=
    Inheritance.pairwise_disjoint_loops _ _
  obtain ⟨before, later, split⟩ := List.append_of_mem isCycle
  rw [split, List.pairwise_append, List.pairwise_cons] at disjoint
  obtain ⟨-, ⟨fromCycle, -⟩, across⟩ := disjoint
  have first := elsewhere before fun other member => across other member cycle List.mem_cons_self
  have last := elsewhere later fun other member => (fromCycle other member).symm
  rw [split, List.filterMap_append, List.filter_append, first, List.nil_append,
    List.filterMap_cons]
  cases reported : scope.cycleProblem cycle with
  | none => exact last
  | some problem =>
    obtain ⟨identifier, inside, _, _, rfl, -⟩ := exists_names_of_cycleProblem reported
    rw [List.filter_cons_of_pos (by simpa using inside), last]
    rfl

theorem reportsCycles_cycles (interner : Interner) (failed : List Identifier)
    (distinct : DistinctlyNamed definitions) :
    ReportsCycles definitions interner
      (((ofDefinitions interner definitions failed).cycles definitions).filterMap
        (ofDefinitions interner definitions failed).cycleProblem) := by
  constructor
  case once =>
    intro length item round
    obtain ⟨cycle, isCycle, member, rfl⟩ :=
      (comesRound_iff interner failed distinct).mp round
    obtain ⟨least, isDefinition, inside, minimal, report⟩ :=
      cycleProblem_eq_cycleReport distinct isCycle
    have onLine {other : Identifier} :
        other ∈ lineage (parentIn? definitions) cycle.length item ↔ other ∈ cycle := by
      rw [lineage_eq_turned distinct isCycle member]
      exact (Inheritance.turned_perm item cycle).mem_iff
    have only := filter_cycleProblems isCycle
    rw [report] at only
    simp only [onLine]
    exact ⟨least, isDefinition, inside, minimal, only⟩
  case only =>
    intro problem reported
    obtain ⟨cycle, isCycle, reported⟩ := List.mem_filterMap.mp reported
    obtain ⟨identifier, inside, _, _, rfl, -⟩ := exists_names_of_cycleProblem reported
    exact ⟨_, (comesRound_iff interner failed distinct).mpr ⟨cycle, isCycle, inside, rfl⟩⟩

theorem reportsCycles_of_held (distinct : DistinctlyNamed definitions)
    (held : ∀ definition ∈ definitions, interner.Holds definition.identifier) :
    ∃ problems,
      (ofDefinitions interner definitions failed).cycleProblems definitions = .ok problems
        ∧ ReportsCycles definitions interner problems :=
  ⟨_, (gives_cycleProblems _ definitions).eq_ok held, reportsCycles_cycles interner failed distinct⟩

/-- `A` leads into the cycle of `B` and `C`, and `D` inherits from itself. `E` and `F` inherit from
    each other, but are of two kinds. -/
def entangled : List RawDefinition :=
  [ stating ⟨0x10000001⟩ (.interface (some ⟨0x20000000⟩) [] []),
    stating ⟨0x30000002⟩ (.interface (some ⟨0x20000000⟩) [] []),
    stating ⟨0x20000000⟩ (.interface (some ⟨0x30000002⟩) [] []),
    stating ⟨0x40000005⟩ (.dictionary (some ⟨0x40000005⟩) []),
    stating ⟨0x50000003⟩ (.interface (some ⟨0x60000002⟩) [] []),
    stating ⟨0x60000002⟩ (.dictionary (some ⟨0x50000003⟩) []) ]
where
  stating (identifier : Identifier) (body : RawBody) : RawDefinition :=
    ⟨⟨identifier, .empty, .unset, [], [], .empty⟩, body⟩

def cyclesEntangled : List Problem :=
  [⟨⟨0x20000000⟩, "B", .inheritanceCycle ["B", "C", "B"] .empty⟩,
    ⟨⟨0x40000005⟩, "D", .inheritanceCycle ["D", "D"] .empty⟩]

theorem reportsCycles_entangled :
    (DistinctlyNamed entangled ∧ ∀ definition ∈ entangled,
        (Interner.new.holdAll ["A", "B", "C", "D", "E", "F"]).Holds definition.identifier)
      ∧ (ofDefinitions (Interner.new.holdAll ["A", "B", "C", "D", "E", "F"]) entangled
          []).cycleProblems entangled = .ok cyclesEntangled
        ∧ ReportsCycles entangled (Interner.new.holdAll ["A", "B", "C", "D", "E", "F"])
          cyclesEntangled := by
  have distinct : DistinctlyNamed entangled := by
    unfold DistinctlyNamed
    decide
  have held : ∀ definition ∈ entangled,
      (Interner.new.holdAll ["A", "B", "C", "D", "E", "F"]).Holds definition.identifier := by
    decide +kernel
  have found : (ofDefinitions (Interner.new.holdAll ["A", "B", "C", "D", "E", "F"]) entangled
      []).cycleProblems entangled = .ok cyclesEntangled := by
    decide +kernel
  obtain ⟨problems, same, reports⟩ := reportsCycles_of_held distinct held
  obtain rfl : problems = cyclesEntangled := Except.ok.inj (same.symm.trans found)
  exact ⟨⟨distinct, held⟩, found, reports⟩

end Scope

end WebIdl
