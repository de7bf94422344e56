import WebIdl.Proofs.Acceptance

namespace WebIdl

section
variable {α β : Type}

theorem exists_ok_of_bind {computation : Except Fault α} {next : α → Except Fault β} {last : β}
    (outcome : (computation >>= next) = .ok last) :
    ∃ value, computation = .ok value ∧ next value = .ok last := by
  cases computation with
  | error fault => nomatch outcome
  | ok value => exact ⟨value, rfl, outcome⟩

end

theorem Merged.holds_of_ofGroups {policy : AttributePolicy} {interner : Interner}
    {groups : List FragmentGroup} {merged : Merged}
    (outcome : ofGroups policy interner groups = .ok merged) :
    ∀ group ∈ groups, group.fragments ≠ [] → interner.Holds group.identifier := by
  induction groups generalizing merged with
  | nil => exact nofun
  | cons group groups ih =>
    obtain ⟨result, merging, outcome⟩ := exists_ok_of_bind outcome
    obtain ⟨rest, outcome, -⟩ := exists_ok_of_bind outcome
    refine List.forall_mem_cons.mpr ⟨fun nonempty => ?_, ih outcome⟩
    cases found : group.fragments? with
    | none => exact absurd (FragmentGroup.fragments?_eq_none_iff.mp found) nonempty
    | some fragments =>
      rw [FragmentGroup.merge?, found] at merging
      obtain ⟨name, spelled, -⟩ := exists_ok_of_bind merging
      rw [Interner.Holds, Interner.lookup_eq_ok_iff.mp spelled]
      rfl

theorem pairwise_sortedByName {interner : Interner} {definitions : List RawDefinition}
    (distinct : DistinctlyNamed (sortedByName interner.spell definitions))
    (held : ∀ definition ∈ sortedByName interner.spell definitions,
      interner.Holds definition.identifier) :
    (sortedByName interner.spell definitions).Pairwise fun one other =>
      interner.spell one.identifier < interner.spell other.identifier := by
  have ordered := pairwise_le_sortedByName interner.spell definitions
  rw [DistinctlyNamed, List.nodup_iff_pairwise_ne, List.pairwise_map] at distinct
  refine (ordered.and distinct).imp_of_mem fun {one other} member member' both => ?_
  have differ : interner.spell one.identifier ≠ interner.spell other.identifier :=
    fun same => both.2 ((held one member).spell_inj (held other member') same)
  exact Std.lt_of_le_of_ne both.1 differ

def mergedByName (policy : AttributePolicy) (interner : Interner) (fragments : List Fragment) :
    List RawDefinition :=
  sortedByName interner.spell
    (Merged.ofHeld policy interner (Corpus.ofFragments fragments).groups).definitions

section
variable {policy : AttributePolicy} {interner : Interner} {fragments : List Fragment}

theorem mem_mergedByName_iff {definition : RawDefinition} :
    definition ∈ mergedByName policy interner fragments ↔
      ∃ together : Fragments, together.toList = fragmentsNamed fragments definition.identifier
        ∧ Mergeable policy together.toList
        ∧ definition = together.definition policy definition.identifier := by
  rw [mergedByName, (sortedByName_perm _ _).mem_iff]
  exact Merged.mem_definitions_iff (Corpus.registers_ofFragments fragments)

theorem exists_fragment_of_merged {definition : RawDefinition}
    (member : definition ∈ mergedByName policy interner fragments) :
    ∃ fragment ∈ fragments, fragment.identifier = definition.identifier := by
  obtain ⟨together, same, -⟩ := mem_mergedByName_iff.mp member
  have first : together.first ∈ together.toList := List.mem_cons_self
  exact ⟨together.first, mem_fragmentsNamed.mp (same ▸ first)⟩

theorem distinct_mergedByName : DistinctlyNamed (mergedByName policy interner fragments) := by
  have distinct : DistinctlyNamed
      (Merged.ofHeld policy interner (Corpus.ofFragments fragments).groups).definitions :=
    Merged.nodup_definitions (Corpus.registers_ofFragments fragments)
  exact distinct.perm (sortedByName_perm _ _)

theorem held_mergedByName {outcome : Except Report Model}
    (built : Model.ofCorpus policy interner (.ofFragments fragments) = .ok outcome) :
    ∀ definition ∈ mergedByName policy interner fragments,
      interner.Holds definition.identifier := by
  intro definition member
  obtain ⟨_, merging, -⟩ := exists_ok_of_bind built
  obtain ⟨together, same, -⟩ := mem_mergedByName_iff.mp member
  have isGroup := ((Corpus.registers_ofFragments fragments).mem_groups
    ⟨definition.identifier, together.toList⟩).mpr ⟨same, List.cons_ne_nil _ _⟩
  exact Merged.holds_of_ofGroups merging _ isGroup (List.cons_ne_nil _ _)

theorem sorted_mergedByName {outcome : Except Report Model}
    (built : Model.ofCorpus policy interner (.ofFragments fragments) = .ok outcome) :
    (mergedByName policy interner fragments).Pairwise fun one other =>
      interner.spell one.identifier < interner.spell other.identifier :=
  pairwise_sortedByName distinct_mergedByName (held_mergedByName built)

end

/-- The definitions before resolution from which a model was made, in the order of their names. -/
structure MadeFrom (policy : AttributePolicy) (interner : Interner) (fragments : List Fragment)
    (model : Model) (definitions : List RawDefinition) : Prop where
  mergeable : ∀ identifier, Mergeable policy (fragmentsNamed fragments identifier)
  merged : ∀ definition, definition ∈ definitions ↔
    ∃ together : Fragments, together.toList = fragmentsNamed fragments definition.identifier
      ∧ definition = together.definition policy definition.identifier
  distinct : DistinctlyNamed definitions
  held : ∀ definition ∈ definitions, interner.Holds definition.identifier
  sorted : definitions.Pairwise fun one other =>
    interner.spell one.identifier < interner.spell other.identifier
  acyclic : ∀ identifier, ¬ Relation.TransGen (Inherits definitions) identifier identifier
  references : ∀ definition ∈ definitions, ∀ occurrence ∈ definition.body.occurrences,
    occurrence.Satisfies (IsType definitions interner) (IsDefined definitions)
  resolved : model.definitions
    = definitions.map (Scope.ofDefinitions interner definitions []).resolved

theorem Model.exists_madeFrom {policy : AttributePolicy} {interner : Interner}
    {fragments : List Fragment} {model : Model}
    (accepted : ofCorpus policy interner (.ofFragments fragments) = .ok (.ok model)) :
    ∃ definitions, MadeFrom policy interner fragments model definitions := by
  have registers := Corpus.registers_ofFragments fragments
  have outcome := ((gives_ofCorpus policy interner _).eq_of_ok accepted).symm
  obtain ⟨mergeable, none, resolved⟩ := (ofHeld_eq_ok_iff registers).mp outcome
  obtain ⟨acyclic, references⟩ :=
    (Scope.problems_resolution_eq_nil_iff interner distinct_mergedByName).mp none
  refine ⟨mergedByName policy interner fragments, mergeable, fun definition => ?_,
    distinct_mergedByName, held_mergedByName accepted, sorted_mergedByName accepted, acyclic,
    references, resolved⟩
  rw [mem_mergedByName_iff]
  refine exists_congr fun together => and_congr_right fun same => ?_
  exact and_iff_right (same ▸ mergeable definition.identifier)

end WebIdl
