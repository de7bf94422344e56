import WebIdl.Proofs.Aggregation
import WebIdl.Proofs.Closure
import WebIdl.Proofs.Extension

namespace WebIdl

inductive Interleaves {α : Type} : List α → List α → List α → Prop where
  | nil : Interleaves [] [] []
  | left {ones others whole : List α} (one : α) :
    Interleaves ones others whole → Interleaves (one :: ones) others (one :: whole)
  | right {ones others whole : List α} (other : α) :
    Interleaves ones others whole → Interleaves ones (other :: others) (other :: whole)

namespace Interleaves

variable {α : Type} {ones others whole : List α}

theorem mem_iff (interleaves : Interleaves ones others whole) {item : α} :
    item ∈ whole ↔ item ∈ ones ∨ item ∈ others := by
  induction interleaves with
  | nil => simp
  | left one _ ih => simp [ih, or_assoc]
  | right other _ ih => simp [ih, or_left_comm]

theorem filter_eq (interleaves : Interleaves ones others whole) {keep : α → Bool}
    (none : ∀ other ∈ others, keep other = false) : whole.filter keep = ones.filter keep := by
  induction interleaves with
  | nil => rfl
  | left one _ ih => rw [List.filter_cons, List.filter_cons, ih none]
  | right other _ ih =>
    obtain ⟨dropped, none⟩ := List.forall_mem_cons.mp none
    rw [List.filter_cons, dropped, ih none]
    rfl

end Interleaves

theorem fragmentsNamed_of_interleaves {base added union : List Fragment}
    (interleaves : Interleaves base added union) {identifier : Identifier}
    (old : identifier ∉ added.map (·.identifier)) :
    fragmentsNamed union identifier = fragmentsNamed base identifier := by
  refine congrArg inSourceOrder (interleaves.filter_eq fun fragment member => ?_)
  exact decide_eq_false fun same => old (same ▸ List.mem_map_of_mem member)

/-- What a build says when other fragments are registered besides those of a model. Only their names
    are blamed, or else the model is kept up to the places of its definitions. -/
structure Conserves (interner : Interner) (base added : List Fragment) (model : Model)
    (outcome : Except Report Model) : Prop where
  blames : ∀ report, outcome = .error report → ∀ problem ∈ report.problems,
    problem.Blames interner (· ∈ added.map (·.identifier))
  keeps : ∀ larger, outcome = .ok larger → ∃ shift : Nat → Nat, StrictMono shift
    ∧ larger.definitions.filter (·.identifier ∈ base.map (·.identifier))
      = model.definitions.map (·.renumber shift)
    ∧ ∀ place definition, model.definitions[place]? = some definition →
      larger.definitions[shift place]? = some (definition.renumber shift)

namespace MadeFrom

variable {policy : AttributePolicy} {interner : Interner} {base added union : List Fragment}
  {model : Model} {definitions : List RawDefinition}

theorem filter_eq (made : MadeFrom policy interner base model definitions)
    (interleaves : Interleaves base added union)
    (apart : ∀ one ∈ base, ∀ other ∈ added, one.identifier ≠ other.identifier)
    {outcome : Except Report Model}
    (built : Model.ofCorpus policy interner (.ofFragments union) = .ok outcome) :
    (mergedByName policy interner union).filter (·.identifier ∈ base.map (·.identifier))
      = definitions := by
  have named {identifier : Identifier} (old : identifier ∈ base.map (·.identifier)) :
      fragmentsNamed union identifier = fragmentsNamed base identifier := by
    refine fragmentsNamed_of_interleaves interleaves fun new => ?_
    obtain ⟨one, member, rfl⟩ := List.mem_map.mp old
    obtain ⟨other, member', same⟩ := List.mem_map.mp new
    exact apart one member other member' same.symm
  refine eq_of_strictly_ordered (fun _ _ => String.lt_asymm)
    ((sorted_mergedByName built).filter _) made.sorted fun definition => ?_
  rw [List.mem_filter, mem_mergedByName_iff, made.merged, decide_eq_true_iff]
  constructor
  · rintro ⟨⟨together, same, -, equal⟩, old⟩
    exact ⟨together, same.trans (named old), equal⟩
  · rintro ⟨together, same, equal⟩
    have first : together.first ∈ together.toList := List.mem_cons_self
    have old : definition.identifier ∈ base.map (·.identifier) :=
      List.mem_map.mpr ⟨together.first, mem_fragmentsNamed.mp (same ▸ first)⟩
    have mergeable := made.mergeable definition.identifier
    exact ⟨⟨together, same.trans (named old).symm, same ▸ mergeable, equal⟩, old⟩

variable (made : MadeFrom policy interner base model definitions)
  (interleaves : Interleaves base added union)
  (apart : ∀ one ∈ base, ∀ other ∈ added, one.identifier ≠ other.identifier)

include made interleaves apart

theorem extends_merged {outcome : Except Report Model}
    (built : Model.ofCorpus policy interner (.ofFragments union) = .ok outcome) :
    Extends interner definitions (mergedByName policy interner union) where
  sublist := made.filter_eq interleaves apart built ▸ List.filter_sublist
  distinct := distinct_mergedByName
  held := held_mergedByName built
  references := made.references

theorem mem_added_of_new {outcome : Except Report Model}
    (built : Model.ofCorpus policy interner (.ofFragments union) = .ok outcome)
    {identifier : Identifier}
    (known : identifier ∈ (mergedByName policy interner union).map (·.identifier))
    (new : identifier ∉ definitions.map (·.identifier)) :
    identifier ∈ added.map (·.identifier) := by
  obtain ⟨definition, isDefinition, rfl⟩ := List.mem_map.mp known
  obtain ⟨fragment, inside, same⟩ := exists_fragment_of_merged isDefinition
  rcases interleaves.mem_iff.mp inside with isOld | isNew
  · have old : definition ∈ definitions := by
      rw [← made.filter_eq interleaves apart built, List.mem_filter, decide_eq_true_iff]
      exact ⟨isDefinition, List.mem_map.mpr ⟨fragment, isOld, same⟩⟩
    exact absurd (List.mem_map_of_mem old) new
  · exact List.mem_map.mpr ⟨fragment, isNew, same⟩

theorem blames {report : Report}
    (rejected : Model.ofCorpus policy interner (.ofFragments union) = .ok (.error report)) :
    ∀ problem ∈ report.problems, problem.Blames interner (· ∈ added.map (·.identifier)) := by
  have extension := made.extends_merged interleaves apart rejected
  have outcome := ((Model.gives_ofCorpus policy interner _).eq_of_ok rejected).symm
  obtain ⟨-, rfl⟩ := Model.ofHeld_eq_error_iff.mp outcome
  intro problem member
  rcases List.mem_append.mp (List.mem_mergeSort.mp member) with merging | resolving
  · obtain ⟨_, merged, -⟩ := exists_ok_of_bind rejected
    obtain ⟨group, isGroup, isProblem⟩ := List.mem_flatMap.mp merging
    obtain ⟨cause, isMerge, rfl⟩ := FragmentGroup.exists_cause_of_mem_problems isProblem
    obtain ⟨named, nonempty⟩ :=
      ((Corpus.registers_ofFragments union).mem_groups group).mp isGroup
    have new : group.identifier ∈ added.map (·.identifier) := by
      by_contra old
      have mergeable := made.mergeable group.identifier
      rw [← fragmentsNamed_of_interleaves interleaves old, ← named] at mergeable
      rw [FragmentGroup.problems_eq_nil_iff.mpr mergeable] at isProblem
      nomatch isProblem
    refine ⟨new, (Merged.holds_of_ofGroups merged group isGroup nonempty).spelling?_eq, ?_⟩
    rintro names locations rfl
    nomatch isMerge
  · exact (extension.blames made.acyclic resolving).mono fun identifier ⟨known, new⟩ =>
      made.mem_added_of_new interleaves apart rejected known new

theorem keeps {larger : Model}
    (accepted : Model.ofCorpus policy interner (.ofFragments union) = .ok (.ok larger)) :
    ∃ shift : Nat → Nat, StrictMono shift
      ∧ larger.definitions.filter (·.identifier ∈ base.map (·.identifier))
        = model.definitions.map (·.renumber shift)
      ∧ ∀ place definition, model.definitions[place]? = some definition →
        larger.definitions[shift place]? = some (definition.renumber shift) := by
  have extension := made.extends_merged interleaves apart accepted
  have outcome := ((Model.gives_ofCorpus policy interner _).eq_of_ok accepted).symm
  have resolved : larger.definitions = (mergedByName policy interner union).map
      (Scope.ofDefinitions interner (mergedByName policy interner union) []).resolved :=
    ((Model.ofHeld_eq_ok_iff (Corpus.registers_ofFragments union)).mp outcome).2.2
  obtain ⟨shift, increasing, placed⟩ := extension.exists_shift
  refine ⟨shift, increasing, ?_, fun place definition here => ?_⟩
  · have kept := made.filter_eq interleaves apart accepted
    rw [resolved, List.filter_map, made.resolved, List.map_map]
    refine (congrArg (List.map _) kept).trans (List.map_congr_left fun definition member => ?_)
    exact extension.resolved_eq placed member
  · obtain ⟨raw, isRaw, rfl⟩ := made.getElem?_eq_some_iff.mp here
    rw [resolved, List.getElem?_map, ← placed, isRaw, Option.map_some,
      extension.resolved_eq placed (List.mem_of_getElem? isRaw)]

end MadeFrom

theorem Model.conserves_of_interleaves {policy : AttributePolicy} {interner : Interner}
    {base added union : List Fragment} {model : Model} {outcome : Except Report Model}
    (interleaves : Interleaves base added union)
    (apart : ∀ one ∈ base, ∀ other ∈ added, one.identifier ≠ other.identifier)
    (accepted : ofCorpus policy interner (.ofFragments base) = .ok (.ok model))
    (built : ofCorpus policy interner (.ofFragments union) = .ok outcome) :
    Conserves interner base added model outcome := by
  obtain ⟨definitions, made⟩ := exists_madeFrom accepted
  constructor
  · rintro report rfl
    exact made.blames interleaves apart built
  · rintro larger rfl
    exact made.keeps interleaves apart built

theorem Model.conserves_bare :
    Interleaves [Fragment.bare ⟨0x20000000⟩ none []]
        [Fragment.bare ⟨0xE0000001⟩ (some ⟨0x20000000⟩) []]
        [Fragment.bare ⟨0xE0000001⟩ (some ⟨0x20000000⟩) [], Fragment.bare ⟨0x20000000⟩ none []]
      ∧ Conserves (Interner.new.holdAll ["Node", "Leaf"]) [Fragment.bare ⟨0x20000000⟩ none []]
        [Fragment.bare ⟨0xE0000001⟩ (some ⟨0x20000000⟩) []] ⟨[.bare ⟨0x20000000⟩ none]⟩
        (.ok ⟨[.bare ⟨0xE0000001⟩ (some ⟨⟨0x20000000⟩, 1⟩), .bare ⟨0x20000000⟩ none]⟩) := by
  have interleaves : Interleaves [Fragment.bare ⟨0x20000000⟩ none []]
      [Fragment.bare ⟨0xE0000001⟩ (some ⟨0x20000000⟩) []]
      [Fragment.bare ⟨0xE0000001⟩ (some ⟨0x20000000⟩) [], Fragment.bare ⟨0x20000000⟩ none []] :=
    .right _ (.left _ .nil)
  have apart : ∀ one ∈ [Fragment.bare ⟨0x20000000⟩ none []],
      ∀ other ∈ [Fragment.bare ⟨0xE0000001⟩ (some ⟨0x20000000⟩) []],
        one.identifier ≠ other.identifier := by decide
  have accepted : ofCorpus .standard (Interner.new.holdAll ["Node", "Leaf"])
      (.ofFragments [Fragment.bare ⟨0x20000000⟩ none []])
      = .ok (.ok ⟨[.bare ⟨0x20000000⟩ none]⟩) :=
    (ofCorpus_of_ordered _ _ _ [0] [] (by decide +kernel) (by decide +kernel)
      (by decide +kernel) (by decide +kernel)).trans (by decide +kernel)
  exact ⟨interleaves,
    conserves_of_interleaves interleaves apart accepted ofCorpus_parentAfterChild⟩

end WebIdl
