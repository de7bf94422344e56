import WebIdl.Proofs.Arrival
import WebIdl.Proofs.BadReferences
import WebIdl.Proofs.Cycles
import WebIdl.Proofs.Referents

namespace WebIdl

namespace Report

theorem ofProblems_singleton (problem : Problem) : ofProblems [problem] = ⟨[problem]⟩ :=
  congrArg mk (List.mergeSort_singleton problem)

end Report

namespace FragmentGroup

variable {policy : AttributePolicy} {interner : Interner} {group : FragmentGroup}

theorem identifier_of_definition? {definition : RawDefinition}
    (merged : group.definition? policy interner = some definition) :
    definition.identifier = group.identifier := by
  obtain ⟨-, together, -, rfl⟩ := definition?_eq_some_iff.mp merged
  rfl

theorem isSome_failed?_iff (nonempty : group.fragments ≠ []) :
    (group.failed? policy interner).isSome = !(group.definition? policy interner).isSome := by
  unfold failed? definition?
  rcases group.merged?_spec policy interner with
    ⟨empty, -⟩ | ⟨together, -, ⟨-, merged⟩ | ⟨-, problem, problems, merged⟩⟩
  · exact absurd empty nonempty
  · rw [merged]
    rfl
  · rw [merged]
    rfl

end FragmentGroup

namespace Merged

variable {policy : AttributePolicy} {interner : Interner} {groups : List FragmentGroup}

theorem identifiers_definitions (groups : List FragmentGroup) :
    (ofHeld policy interner groups).definitions.map (·.identifier)
      = (groups.filter fun group => (group.definition? policy interner).isSome).map
        (·.identifier) := by
  simp only [ofHeld]
  induction groups with
  | nil => rfl
  | cons group groups ih =>
    cases merged : group.definition? policy interner with
    | none => simpa [merged] using ih
    | some definition =>
      simpa [merged, FragmentGroup.identifier_of_definition? merged] using ih

theorem identifiers_failed (groups : List FragmentGroup) :
    (ofHeld policy interner groups).failed
      = (groups.filter fun group => (group.failed? policy interner).isSome).map
        (·.identifier) := by
  simp only [ofHeld]
  induction groups with
  | nil => rfl
  | cons group groups ih =>
    cases failed : group.failed? policy interner with
    | none => simpa [failed] using ih
    | some identifier =>
      simpa [failed, (FragmentGroup.failed?_eq_some_iff.mp failed).1] using ih

variable (policy interner) in
theorem identifiers_perm (nonempty : ∀ group ∈ groups, group.fragments ≠ []) :
    ((ofHeld policy interner groups).definitions.map (·.identifier)
        ++ (ofHeld policy interner groups).failed).Perm (groups.map (·.identifier)) := by
  have failed : groups.filter (fun group => (group.failed? policy interner).isSome)
      = groups.filter fun group => !(group.definition? policy interner).isSome :=
    List.filter_congr fun group member =>
      FragmentGroup.isSome_failed?_iff (nonempty group member)
  rw [identifiers_definitions, identifiers_failed, failed, ← List.map_append]
  exact (List.filter_append_perm _ groups).map _

variable (policy interner) in
theorem mem_identifiers_iff {corpus : Corpus} {fragments : List Fragment}
    (registers : corpus.Registers fragments) {identifier : Identifier} :
    identifier ∈ (ofHeld policy interner corpus.groups).definitions.map (·.identifier)
        ++ (ofHeld policy interner corpus.groups).failed
      ↔ ∃ fragment ∈ fragments, fragment.identifier = identifier := by
  rw [(identifiers_perm policy interner
    fun group member => ((registers.mem_groups group).mp member).2).mem_iff]
  exact registers.mem_identifiers_iff

end Merged

namespace Resolution

variable {interner : Interner} {failed : List Identifier} {definitions : List RawDefinition}

end Resolution

namespace Model

variable {policy : AttributePolicy} {interner : Interner} {fragments : List Fragment}

theorem ofHeld_eq_error_iff {corpus : Corpus} {report : Report} :
    ofHeld policy interner corpus = .error report ↔
      let merged := Merged.ofHeld policy interner corpus.groups
      let resolution := Resolution.ofHeld interner merged.failed merged.definitions
      merged.problems ++ resolution.problems ≠ []
        ∧ report = .ofProblems (merged.problems ++ resolution.problems) := by
  unfold ofHeld
  dsimp only
  generalize (Merged.ofHeld policy interner corpus.groups).problems ++ _ = problems
  cases problems <;> simp [eq_comm]

end Model

def Interner.faulty : Interner := Interner.new.holdAll ["Mode", "Node", "Missing", "next", "Loop"]

/-- `Mode` is an enumeration with two definitions, `Node` an interface without its parent, and
    `Loop` a dictionary that inherits from itself. -/
def Fragment.faulty : List Fragment :=
  [ { listing ⟨0x30000002⟩ ["a"] 0 with locations := .single ⟨"mode.idl", .line 1⟩ },
    { listing ⟨0x30000002⟩ ["b"] 1 with locations := .single ⟨"mode.idl", .line 2⟩ },
    { bare ⟨0x20000000⟩ none [] with
      body := .interface (some ⟨0x60000002⟩)
        [⟨.attr ⟨0x30000003⟩ (.union [.leaf ⟨0x30000002⟩, .leaf ⟨0x20000000⟩]) .empty,
          .empty, .empty, default⟩] [] },
    { bare ⟨0x40000005⟩ none [] with body := .dictionary (some ⟨0x40000005⟩) [] } ]

def Merged.faulty : Merged where
  definitions :=
    [⟨⟨⟨0x20000000⟩, .empty, .unset, [], [.unspecified], .empty⟩,
        .interface (some ⟨0x60000002⟩)
          [⟨.attr ⟨0x30000003⟩ (.union [.leaf ⟨0x30000002⟩, .leaf ⟨0x20000000⟩]) .empty,
            .empty, .empty, ⟨.unspecified, false⟩⟩] []⟩,
      ⟨⟨⟨0x40000005⟩, .empty, .unset, [], [.unspecified], .empty⟩,
        .dictionary (some ⟨0x40000005⟩) []⟩]
  failed := [⟨0x30000002⟩]
  problems := [⟨⟨0x30000002⟩, "Mode", .conflictingDeclaration "values"
    (.single ⟨"mode.idl", .line 1⟩) (.single ⟨"mode.idl", .line 2⟩)⟩]

def Resolution.faulty : Resolution where
  definitions :=
    [⟨⟨⟨0x40000005⟩, .empty, .unset, [], [.unspecified], .empty⟩,
        .dictionary (some ⟨⟨0x40000005⟩, 0⟩) []⟩,
      ⟨⟨⟨0x20000000⟩, .empty, .unset, [], [.unspecified], .empty⟩,
        .interface none
          [⟨.attr ⟨0x30000003⟩
              (.union [.leaf (.builtin .any), .leaf (.definition ⟨⟨0x20000000⟩, 1⟩)]) .empty,
            .empty, .empty, ⟨.unspecified, false⟩⟩] []⟩]
  problems :=
    [⟨⟨0x40000005⟩, "Loop", .inheritanceCycle ["Loop", "Loop"] .empty⟩,
      ⟨⟨0x20000000⟩, "Node", .unresolvedReference "Missing" "inheritance" .empty⟩]

def Report.faulty : Report :=
  ⟨[⟨⟨0x40000005⟩, "Loop", .inheritanceCycle ["Loop", "Loop"] .empty⟩,
    ⟨⟨0x30000002⟩, "Mode", .conflictingDeclaration "values"
      (.single ⟨"mode.idl", .line 1⟩) (.single ⟨"mode.idl", .line 2⟩)⟩,
    ⟨⟨0x20000000⟩, "Node", .unresolvedReference "Missing" "inheritance" .empty⟩]⟩

end WebIdl
