import WebIdl.Proofs.MergeConflicts

namespace WebIdl

def Problem.Cause.subject : Problem.Cause → ProblemCode × Option String
  | .conflictingDeclaration field _ _ => (.conflictingDeclaration, some field)
  | .duplicateAttribute key _ _ => (.duplicateAttribute, some key)
  | cause => (cause.code, none)

/-- What is wrong with fragments whichever of them comes first. -/
inductive AtFault (policy : AttributePolicy) (together : List Fragment) :
    ProblemCode × Option String → Prop where
  | mismatch {one other : Fragment} (member : one ∈ together) (member' : other ∈ together)
      (differ : one.kind ≠ other.kind) : AtFault policy together (.kindMismatch, none)
  | partialOnly {kind : Kind} (oneKind : ∀ fragment ∈ together, fragment.kind = kind)
      (allows : kind.allowsPartial) (partials : ∀ fragment ∈ together, fragment.isPartial) :
    AtFault policy together (.partialOnly, none)
  | contestedKey {kind : Kind} (oneKind : ∀ fragment ∈ together, fragment.kind = kind) {key : String}
      (contested : policy.agreement.Contested (together.flatMap (·.attributes.entries)) key) :
    AtFault policy together (.duplicateAttribute, some key)
  | contestedField {kind : Kind} (oneKind : ∀ fragment ∈ together, fragment.kind = kind)
      {field : String}
      (contested : Statement.agreement.Contested (together.flatMap (·.body.statements)) field) :
    AtFault policy together (.conflictingDeclaration, some field)

/-- Both definitions hold the same, though what they list may stand in another order. Of their
    hints the same ones are set. -/
structure RawDefinition.Rearranges (one other : RawDefinition) : Prop where
  identifier : one.identifier = other.identifier
  kind : one.kind = other.kind
  parent : one.body.inherited? = other.body.inherited?
  whole : one.body.IsWhole → one.body = other.body
  members : one.body.members.Perm other.body.members
  dictionaryMembers : one.body.dictionaryMembers.Perm other.body.dictionaryMembers
  includes : one.body.includes.Perm other.body.includes
  components : one.declaration.components.Perm other.declaration.components
  attributes : one.declaration.attributes.entries.Perm other.declaration.attributes.entries
  locations : one.declaration.locations.entries.Perm other.declaration.locations.entries
  hints : ∀ field, (one.declaration.hints.get? field).isSome
    = (other.declaration.hints.get? field).isSome

inductive MergedAlike : Option (Except (List Problem) RawDefinition) →
    Option (Except (List Problem) RawDefinition) → Prop where
  | nothing : MergedAlike none none
  | merged {one other : RawDefinition} (rearranges : one.Rearranges other) :
    MergedAlike (some (.ok one)) (some (.ok other))
  | failed {problems problems' : List Problem}
      (alike : ∀ subject, (∃ problem ∈ problems, problem.cause.subject = subject)
        ↔ ∃ problem ∈ problems', problem.cause.subject = subject) :
    MergedAlike (some (.error problems)) (some (.error problems'))

section
variable {α : Type} [DecidableEq α]

theorem firstOccurrences_perm {items items' : List α} (perm : items.Perm items') :
    (firstOccurrences items).Perm (firstOccurrences items') := by
  refine (List.perm_ext_iff_of_nodup (nodup_firstOccurrences items)
    (nodup_firstOccurrences items')).mpr fun item => ?_
  rw [mem_firstOccurrences, mem_firstOccurrences, perm.mem_iff]

end

namespace GeneratorHints

theorem get?_update (hints later : GeneratorHints) (field : Field) :
    (hints.update later).get? field = (later.get? field).or (hints.get? field) := by
  cases field with
  | nameOverride | headerPath => rfl
  | skipEmission => exact Option.map_or

theorem isSome_get?_updateAll (hints : GeneratorHints) (log : List (GeneratorHints × Locations))
    (field : Field) : ((hints.updateAll log).1.get? field).isSome
      ↔ (hints.get? field).isSome ∨ ∃ later ∈ log, (later.1.get? field).isSome := by
  induction log generalizing hints with
  | nil => simp [updateAll]
  | cons next rest ih =>
    have step : (hints.updateAll (next :: rest)).1 = ((hints.update next.1).updateAll rest).1 := rfl
    rw [step, ih, get?_update, Option.isSome_or, Bool.or_eq_true, List.exists_mem_cons_iff,
      or_comm (a := (next.1.get? field).isSome = true), or_assoc]

end GeneratorHints

variable {policy : AttributePolicy} {together together' : List Fragment}

theorem AtFault.perm {subject : ProblemCode × Option String}
    (fault : AtFault policy together subject) (perm : together.Perm together') :
    AtFault policy together' subject := by
  have oneKind {kind : Kind} (all : ∀ fragment ∈ together, fragment.kind = kind) :
      ∀ fragment ∈ together', fragment.kind = kind :=
    fun fragment member => all fragment (perm.mem_iff.mpr member)
  cases fault with
  | mismatch member member' differ =>
    exact .mismatch (perm.mem_iff.mp member) (perm.mem_iff.mp member') differ
  | partialOnly all allows partials =>
    exact .partialOnly (oneKind all) allows
      fun fragment member => partials fragment (perm.mem_iff.mpr member)
  | contestedKey all contested =>
    exact .contestedKey (oneKind all) (contested.of_subset fun entry =>
      (perm.flatMap_right (·.attributes.entries)).mem_iff.mp)
  | contestedField all contested =>
    exact .contestedField (oneKind all) (contested.of_subset fun statement =>
      (perm.flatMap_right (·.body.statements)).mem_iff.mp)

theorem Mergeable.perm (mergeable : Mergeable policy together) (perm : together.Perm together') :
    Mergeable policy together' := by
  have within {fragment : Fragment} (member : fragment ∈ together') : fragment ∈ together :=
    perm.mem_iff.mpr member
  constructor
  case oneKind =>
    exact fun one member other member' => mergeable.oneKind one (within member) other (within member')
  case defined =>
    intro fragment member allows
    obtain ⟨other, inside, isWhole⟩ := mergeable.defined fragment (within member) allows
    exact ⟨other, perm.mem_iff.mp inside, isWhole⟩
  case agree =>
    exact fun one member other member' => mergeable.agree one (within member) other (within member')
  case consistent =>
    exact mergeable.consistent.of_subset fun entry =>
      (perm.flatMap_right (·.attributes.entries)).mem_iff.mpr

namespace Fragments

variable {fragments fragments' : Fragments} {subject : ProblemCode × Option String}

theorem exists_disagreement_iff :
    (∃ cause ∈ fragments.disagreements policy, cause.subject = subject) ↔
      (∃ key, policy.agreement.Contested (fragments.toList.flatMap (·.attributes.entries)) key
        ∧ subject = (.duplicateAttribute, some key))
      ∨ ∃ field, Statement.agreement.Contested (fragments.toList.flatMap (·.body.statements)) field
        ∧ subject = (.conflictingDeclaration, some field) := by
  rw [← map_value_attributes, ← map_value_statements]
  simp only [← Agreement.exists_conflict_iff, List.filterMap_flatMap, disagreements_eq]
  constructor
  · rintro ⟨cause, member, rfl⟩
    obtain ⟨fragment, inside, isCause⟩ := List.mem_flatMap.mp member
    rcases List.mem_append.mp isCause with ofAttribute | ofStatement
    · obtain ⟨conflict, isConflict, rfl⟩ := List.mem_map.mp ofAttribute
      exact .inl ⟨_, ⟨conflict, List.mem_flatMap.mpr ⟨fragment, inside, isConflict⟩, rfl⟩, rfl⟩
    · obtain ⟨conflict, isConflict, rfl⟩ := List.mem_map.mp ofStatement
      exact .inr ⟨_, ⟨conflict, List.mem_flatMap.mpr ⟨fragment, inside, isConflict⟩, rfl⟩, rfl⟩
  · rintro (⟨_, ⟨conflict, member, rfl⟩, rfl⟩ | ⟨_, ⟨conflict, member, rfl⟩, rfl⟩)
    · obtain ⟨fragment, inside, isConflict⟩ := List.mem_flatMap.mp member
      exact ⟨conflict.attributeCause, List.mem_flatMap.mpr ⟨fragment, inside,
        List.mem_append_left _ (List.mem_map_of_mem isConflict)⟩, rfl⟩
    · obtain ⟨fragment, inside, isConflict⟩ := List.mem_flatMap.mp member
      exact ⟨conflict.statementCause, List.mem_flatMap.mpr ⟨fragment, inside,
        List.mem_append_right _ (List.mem_map_of_mem isConflict)⟩, rfl⟩

theorem exists_fault_iff_of_oneKind (all : ∀ fragment ∈ fragments.toList,
      fragment.kind = fragments.kind) :
    (∃ cause ∈ fragments.faults policy, cause.subject = subject)
      ↔ AtFault policy fragments.toList subject := by
  simp only [faults_of_oneKind all, List.mem_append, or_and_right, exists_or,
    exists_disagreement_iff]
  constructor
  · rintro (⟨cause, member, rfl⟩ | ⟨key, contested, rfl⟩ | ⟨field, contested, rfl⟩)
    · obtain ⟨⟨allows, partials⟩, only⟩ := List.mem_ite_nil_right.mp member
      obtain rfl := List.mem_singleton.mp only
      exact .partialOnly all allows partials
    · exact .contestedKey all contested
    · exact .contestedField all contested
  · intro fault
    cases fault with
    | mismatch member member' differ =>
      exact absurd ((all _ member).trans (all _ member').symm) differ
    | partialOnly isKind allows partials =>
      rw [← isKind _ List.mem_cons_self] at allows
      exact .inl ⟨_, List.mem_ite_nil_right.mpr ⟨⟨allows, partials⟩, List.mem_singleton_self _⟩,
        rfl⟩
    | contestedKey _ contested => exact .inr (.inl ⟨_, contested, rfl⟩)
    | contestedField _ contested => exact .inr (.inr ⟨_, contested, rfl⟩)

theorem exists_fault_iff :
    (∃ cause ∈ fragments.faults policy, cause.subject = subject)
      ↔ AtFault policy fragments.toList subject := by
  by_cases same : fragments.sameKind
  · exact exists_fault_iff_of_oneKind (sameKind_iff.mp same)
  · have only : fragments.faults policy = [fragments.kindMismatch] := if_neg same
    rw [only]
    rw [sameKind_iff] at same
    constructor
    · rintro ⟨cause, member, rfl⟩
      obtain rfl := List.mem_singleton.mp member
      push Not at same
      obtain ⟨fragment, member, differs⟩ := same
      exact .mismatch member List.mem_cons_self differs
    · intro fault
      cases fault with
      | mismatch => exact ⟨_, List.mem_singleton_self _, rfl⟩
      | partialOnly all | contestedKey all | contestedField all =>
        have oneKind : ∀ fragment ∈ fragments.toList, fragment.kind = fragments.kind :=
          fun fragment member => (all fragment member).trans (all _ List.mem_cons_self).symm
        exact absurd oneKind same

theorem definition_rearranges (perm : fragments.toList.Perm fragments'.toList)
    (mergeable : Mergeable policy fragments.toList) (identifier : Identifier) :
    (fragments.definition policy identifier).Rearranges
      (fragments'.definition policy identifier) := by
  have mergeable' := mergeable.perm perm
  have first : fragments.first ∈ fragments'.toList := perm.mem_iff.mp List.mem_cons_self
  constructor
  case identifier => rfl
  case kind =>
    exact fragments.kind_body.trans
      ((mergeable'.kind_eq _ first).trans fragments'.kind_body.symm)
  case parent =>
    refine Option.ext fun parent => ?_
    have one : parent ∈ fragments.body.inherited?
        ↔ ∃ fragment ∈ fragments.toList, parent ∈ fragment.body.inherited? :=
      mergeable.inherited?_body_iff
    have other : parent ∈ fragments'.body.inherited?
        ↔ ∃ fragment ∈ fragments'.toList, parent ∈ fragment.body.inherited? :=
      mergeable'.inherited?_body_iff
    simp only [perm.mem_iff] at one
    exact one.trans other.symm
  case whole =>
    intro whole
    have isWhole := isWhole_first whole
    exact (mergeable.body_eq_of_isWhole List.mem_cons_self isWhole).trans
      (mergeable'.body_eq_of_isWhole first isWhole).symm
  case members =>
    show fragments.body.members.Perm fragments'.body.members
    rw [members_body mergeable.kind_eq, members_body mergeable'.kind_eq]
    exact perm.flatMap_right _
  case dictionaryMembers =>
    show fragments.body.dictionaryMembers.Perm fragments'.body.dictionaryMembers
    rw [dictionaryMembers_body mergeable.kind_eq, dictionaryMembers_body mergeable'.kind_eq]
    exact perm.flatMap_right _
  case includes =>
    show fragments.body.includes.Perm fragments'.body.includes
    rw [includes_body mergeable.kind_eq, includes_body mergeable'.kind_eq]
    exact firstOccurrences_perm (perm.flatMap_right _)
  case components => exact firstOccurrences_perm (perm.map _)
  case attributes =>
    rw [attributes_definition mergeable, attributes_definition mergeable']
    exact firstOccurrences_perm (perm.flatMap_right _)
  case locations =>
    show fragments.locations.entries.Perm fragments'.locations.entries
    rw [locations_entries, locations_entries]
    exact firstOccurrences_perm (perm.flatMap_right _)
  case hints =>
    intro field
    have sourced := perm.map (·.sourcedHints)
    rw [Bool.eq_iff_iff]
    have one := GeneratorHints.isSome_get?_updateAll .unset
      (fragments.toList.map (·.sourcedHints)) field
    have other := GeneratorHints.isSome_get?_updateAll .unset
      (fragments'.toList.map (·.sourcedHints)) field
    simp only [sourced.mem_iff] at one
    exact one.trans other.symm

theorem merge_mergedAlike (perm : fragments.toList.Perm fragments'.toList) (identifier : Identifier)
    (name : String) :
    MergedAlike (some (fragments.merge policy identifier name))
      (some (fragments'.merge policy identifier name)) := by
  rw [merge_eq, merge_eq]
  by_cases none : fragments.faults policy = []
  · have mergeable := faults_eq_nil_iff.mp none
    rw [if_pos none, if_pos (faults_eq_nil_iff.mpr (mergeable.perm perm))]
    exact .merged (definition_rearranges perm mergeable identifier)
  · have faulty : fragments'.faults policy ≠ [] := fun none' =>
      none (faults_eq_nil_iff.mpr ((faults_eq_nil_iff.mp none').perm perm.symm))
    rw [if_neg none, if_neg faulty]
    refine .failed fun subject => ?_
    have alike : AtFault policy fragments.toList subject ↔ AtFault policy fragments'.toList subject :=
      ⟨fun fault => fault.perm perm, fun fault => fault.perm perm.symm⟩
    rw [← exists_fault_iff, ← exists_fault_iff] at alike
    simpa using alike

end Fragments

/-- In whichever order the fragments of a name are merged, merging succeeds or fails alike, for the
    same reasons, and gives the same contents. -/
theorem FragmentGroup.mergedAlike_of_perm {interner : Interner} {identifier : Identifier}
    (perm : together.Perm together') (held : interner.Holds identifier) :
    ∃ result result',
      (⟨identifier, together⟩ : FragmentGroup).merge? policy interner = .ok result
        ∧ (⟨identifier, together'⟩ : FragmentGroup).merge? policy interner = .ok result'
        ∧ MergedAlike result result' := by
  refine ⟨_, _, (gives_merge? policy interner _).eq_ok held,
    (gives_merge? policy interner _).eq_ok held, ?_⟩
  cases together with
  | nil =>
    obtain rfl := perm.nil_eq
    exact .nothing
  | cons first others =>
    cases together' with
    | nil => nomatch perm.eq_nil
    | cons first' others' =>
      let one : Fragments := ⟨first, others⟩
      let other : Fragments := ⟨first', others'⟩
      have same : one.toList.Perm other.toList := perm
      exact Fragments.merge_mergedAlike same identifier (interner.spell identifier)

theorem FragmentGroup.mergedAlike_reverse :
    (Interner.new.holdAll ["Node"]).Holds ⟨0x20000000⟩
      ∧ ([Fragment.bare ⟨0x20000000⟩ none [], .onLine 2 (some ⟨0x30000002⟩)].Perm
          [.onLine 2 (some ⟨0x30000002⟩), .bare ⟨0x20000000⟩ none []]
        ∧ ∃ result result',
          (⟨⟨0x20000000⟩, [.bare ⟨0x20000000⟩ none [], .onLine 2 (some ⟨0x30000002⟩)]⟩ :
              FragmentGroup).merge? .standard (Interner.new.holdAll ["Node"]) = .ok result
            ∧ (⟨⟨0x20000000⟩, [.onLine 2 (some ⟨0x30000002⟩), .bare ⟨0x20000000⟩ none []]⟩ :
              FragmentGroup).merge? .standard (Interner.new.holdAll ["Node"]) = .ok result'
            ∧ MergedAlike result result')
      ∧ disputed.fragments.Perm disputed.fragments.reverse
        ∧ ∃ result result',
          (⟨⟨0x20000000⟩, disputed.fragments⟩ : FragmentGroup).merge? .standard
              (Interner.new.holdAll ["Node"]) = .ok result
            ∧ (⟨⟨0x20000000⟩, disputed.fragments.reverse⟩ : FragmentGroup).merge? .standard
              (Interner.new.holdAll ["Node"]) = .ok result'
            ∧ MergedAlike result result' := by
  have held : (Interner.new.holdAll ["Node"]).Holds ⟨0x20000000⟩ := by decide +kernel
  have reversed := (List.reverse_perm disputed.fragments).symm
  exact ⟨held, ⟨.swap .., mergedAlike_of_perm (.swap ..) held⟩, reversed,
    mergedAlike_of_perm reversed held⟩

end WebIdl
