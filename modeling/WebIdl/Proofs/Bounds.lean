import WebIdl.Proofs.Aggregation
import WebIdl.Proofs.Cycles
import WebIdl.Proofs.Outcome

namespace WebIdl

open Inheritance (Walked loop loops walk)

structure InRange (scope : Scope) (definitions : List RawDefinition) : Prop where
  places : ∀ place < definitions.length, (UInt32.ofNat place).toNat = place
  /-- A walk that came back to an item of its own is cut at that item, and no other walk is. -/
  cuts : ∀ fresh start path stop, walk scope.parent? fresh start = (path, some stop) →
    (stop ∈ fresh → ∃ place rest, loop (path, some stop) = path.drop place
      ∧ path.drop place = stop :: rest)
    ∧ (stop ∉ fresh → loop (path, some stop) = [])
  firsts : ∀ cycle ∈ loops scope.parent? (definitions.map (·.identifier))
      (definitions.map (·.identifier)),
    ∃ identifier name rest locations, scope.cycleProblem? cycle
      = .ok (some ⟨identifier, name, .inheritanceCycle (name :: rest) locations⟩)

theorem Scope.inRange_ofDefinitions {interner : Interner} {definitions : List RawDefinition}
    (failed : List Identifier) (distinct : DistinctlyNamed definitions)
    (held : ∀ definition ∈ definitions, interner.Holds definition.identifier) :
    InRange (.ofDefinitions interner definitions failed) definitions := by
  constructor
  case places => exact fun place bound => distinct.toNat_ofNat_place bound
  case cuts =>
    intro fresh start path stop ended
    have walked : Walked (ofDefinitions interner definitions failed).parent? fresh start
        (path, some stop) := ended ▸ Inheritance.walked_walk fresh start
    exact ⟨walked.exists_cut, walked.loop_eq_nil⟩
  case firsts =>
    intro cycle isCycle
    have goesRound := (Inheritance.isCycle_of_mem_loops isCycle).1
    obtain ⟨identifier, name, rest, locations, reported⟩ :=
      (ofDefinitions interner definitions failed).exists_cycleProblem goesRound.1
    refine ⟨identifier, name, rest, locations, ?_⟩
    rw [← reported]
    exact (gives_cycleProblem _ cycle).eq_ok (holds_cycle held cycle isCycle)

namespace Model

variable {policy : AttributePolicy} {interner : Interner} {fragments : List Fragment}

theorem inRange_of_held
    (held : ∀ fragment ∈ fragments, ∀ name ∈ fragment.names, interner.Holds name) :
    ∃ merged definitions outcome,
      Merged.ofGroups policy interner (Corpus.ofFragments fragments).groups = .ok merged
        ∧ sortByName interner merged.definitions = .ok definitions
        ∧ ofCorpus policy interner (.ofFragments fragments) = .ok outcome
        ∧ InRange (.ofDefinitions interner definitions merged.failed) definitions
        ∧ ∀ model, outcome = .ok model → model.size = definitions.length := by
  have registers := Corpus.registers_ofFragments fragments
  have built : ofCorpus policy interner (.ofFragments fragments)
      = .ok (ofHeld policy interner (.ofFragments fragments)) := ofCorpus_eq_ofHeld held
  have heldDefinitions : ∀ definition ∈ mergedByName policy interner fragments,
      interner.Holds definition.identifier := held_mergedByName built
  have merging := (Merged.gives_ofGroups policy interner _).eq_ok
    (Merged.holds_group registers held)
  refine ⟨_, mergedByName policy interner fragments, _, merging, ?_, built, ?_, ?_⟩
  · refine (gives_sortByName interner _).eq_ok fun definition member => ?_
    exact heldDefinitions definition (List.mem_mergeSort.mpr member)
  · exact Scope.inRange_ofDefinitions _ distinct_mergedByName heldDefinitions
  · intro model accepted
    obtain ⟨-, -, resolved⟩ := (ofHeld_eq_ok_iff registers).mp accepted
    rw [size, resolved]
    exact List.length_map _

/-- `A` and `B` inherit from each other, `B` includes an unknown mixin, `D` is an enumeration with
    two definitions and `E` inherits from it. -/
def brokenFragments : List Fragment :=
  [ .bare ⟨0x10000001⟩ (some ⟨0x20000000⟩) [],
    .bare ⟨0x20000000⟩ (some ⟨0x10000001⟩) [⟨0x30000002⟩],
    .listing ⟨0x40000005⟩ ["a"] 0,
    .listing ⟨0x40000005⟩ ["b"] 1,
    .bare ⟨0x50000003⟩ (some ⟨0x40000005⟩) [] ]

theorem inRange_broken :
    (∀ fragment ∈ brokenFragments, ∀ name ∈ fragment.names,
        (Interner.new.holdAll ["A", "B", "C", "D", "E"]).Holds name)
      ∧ ∃ merged definitions outcome,
        Merged.ofGroups .standard (Interner.new.holdAll ["A", "B", "C", "D", "E"])
            (Corpus.ofFragments brokenFragments).groups = .ok merged
          ∧ sortByName (Interner.new.holdAll ["A", "B", "C", "D", "E"]) merged.definitions
            = .ok definitions
          ∧ ofCorpus .standard (Interner.new.holdAll ["A", "B", "C", "D", "E"])
            (.ofFragments brokenFragments) = .ok outcome
          ∧ InRange (.ofDefinitions (Interner.new.holdAll ["A", "B", "C", "D", "E"]) definitions
            merged.failed) definitions
          ∧ ∀ model, outcome = .ok model → model.size = definitions.length := by
  have held : ∀ fragment ∈ brokenFragments, ∀ name ∈ fragment.names,
      (Interner.new.holdAll ["A", "B", "C", "D", "E"]).Holds name := by decide +kernel
  exact ⟨held, inRange_of_held held⟩

end Model

end WebIdl
