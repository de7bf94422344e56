import WebIdl.Proofs.Merging

namespace WebIdl

variable {α κ : Type}

namespace Agreement

def Contested (agreement : Agreement α κ) (values : List α) (key : κ) : Prop :=
  agreement.isRepeatable key = false
    ∧ ∃ one ∈ values, ∃ other ∈ values,
      agreement.key one = key ∧ agreement.key other = key ∧ one ≠ other

theorem Contested.of_subset {agreement : Agreement α κ} {values more : List α} {key : κ}
    (contested : agreement.Contested values key) (subset : ∀ value ∈ values, value ∈ more) :
    agreement.Contested more key := by
  obtain ⟨single, one, member, other, member', differ⟩ := contested
  exact ⟨single, one, subset one member, other, subset other member', differ⟩

variable [DecidableEq κ]

def first? (agreement : Agreement α κ) (said : List (Sourced α)) (key : κ) : Option (Sourced α) :=
  if agreement.isRepeatable key then none else said.find? (agreement.key ·.value = key)

def Remembers (agreement : Agreement α κ) (kept said : List (Sourced α)) : Prop :=
  ∀ key, agreement.first? kept key = agreement.first? said key

variable {agreement : Agreement α κ} {kept said : List (Sourced α)}

theorem first?_append (said more : List (Sourced α)) (key : κ) :
    agreement.first? (said ++ more) key
      = (agreement.first? said key).or (agreement.first? more key) := by
  unfold first?
  split
  · rfl
  · exact List.find?_append

theorem first?_singleton (said : Sourced α) (key : κ) :
    agreement.first? [said] key
      = if agreement.key said.value = key ∧ agreement.isRepeatable key = false then some said
        else none := by
  unfold first?
  by_cases same : agreement.key said.value = key <;>
    cases agreement.isRepeatable key <;> simp [same]

theorem first?_of_single {key : κ} (single : agreement.isRepeatable key = false)
    (said : List (Sourced α)) :
    agreement.first? said key = said.find? (agreement.key ·.value = key) := by
  rw [first?, single, if_neg Bool.false_ne_true]

theorem first?_eq_some {key : κ} {first : Sourced α}
    (found : agreement.first? said key = some first) :
    agreement.isRepeatable key = false ∧ first ∈ said ∧ agreement.key first.value = key := by
  obtain ⟨single, found⟩ := Option.ite_none_left_eq_some.mp found
  exact ⟨by simpa using single, List.mem_of_find?_eq_some found,
    by simpa using List.find?_some found⟩

variable [DecidableEq α]

def conflict? (agreement : Agreement α κ) (said : List (Sourced α)) (later : Sourced α) :
    Option (Conflict α) :=
  (agreement.first? said (agreement.key later.value)).bind fun first =>
    if first.value = later.value then none else some ⟨first, later⟩

theorem Remembers.add (remembers : agreement.Remembers kept said) (next : Sourced α) :
    agreement.Remembers (agreement.add kept next).1 (said ++ [next]) := by
  intro key
  rw [first?_append, first?_singleton, ← remembers]
  cases single : agreement.isRepeatable (agreement.key next.value) with
  | true =>
    have nothing : ¬ (agreement.key next.value = key ∧ agreement.isRepeatable key = false) := by
      intro both
      rw [← both.1, single] at both
      exact Bool.noConfusion both.2
    rw [add_of_repeatable single, if_neg nothing, Option.or_none]
    split
    · rfl
    · rw [first?_append, first?_singleton, if_neg nothing, Option.or_none]
  | false =>
    cases found : agreement.first? kept (agreement.key next.value) with
    | none =>
      rw [add_of_unknown single (first?_of_single single kept ▸ found), first?_append,
        first?_singleton]
    | some first =>
      rw [add_of_known single (first?_of_single single kept ▸ found)]
      by_cases same : agreement.key next.value = key ∧ agreement.isRepeatable key = false
      · rw [if_pos same, ← same.1, found]
        rfl
      · rw [if_neg same, Option.or_none]

/-- A statement is compared with the first one about its key among all that come before or after. -/
theorem Remembers.conflict_add (remembers : agreement.Remembers kept said) (next : Sourced α)
    (more : List (Sourced α)) :
    (agreement.add kept next).2 = agreement.conflict? (said ++ next :: more) next := by
  cases single : agreement.isRepeatable (agreement.key next.value) with
  | true =>
    rw [add_of_repeatable single]
    simp [conflict?, first?, single]
  | false =>
    -- If nothing was said about the key, then the statement is the first one itself.
    have stands : agreement.first? (said ++ next :: more) (agreement.key next.value)
        = some ((agreement.first? kept (agreement.key next.value)).getD next) := by
      rw [List.append_cons, first?_append, first?_append, ← remembers, first?_singleton,
        if_pos ⟨rfl, single⟩]
      cases agreement.first? kept (agreement.key next.value) <;> rfl
    rw [conflict?, stands]
    cases found : agreement.first? kept (agreement.key next.value) with
    | none =>
      rw [add_of_unknown single (first?_of_single single kept ▸ found)]
      simp
    | some first =>
      rw [add_of_known single (first?_of_single single kept ▸ found)]
      rfl

theorem Remembers.addAll (remembers : agreement.Remembers kept said)
    (later more : List (Sourced α)) :
    agreement.Remembers (agreement.addAll kept later).1 (said ++ later)
      ∧ (agreement.addAll kept later).2
        = later.filterMap (agreement.conflict? (said ++ (later ++ more))) := by
  induction later generalizing kept said with
  | nil =>
    rw [List.append_nil]
    exact ⟨remembers, rfl⟩
  | cons next rest ih =>
    have conflict := remembers.conflict_add next (rest ++ more)
    obtain ⟨others, conflicts⟩ := ih (remembers.add next)
    rw [← List.append_cons] at others
    rw [List.append_assoc] at conflicts
    have step : (agreement.addAll kept (next :: rest)).2 = (agreement.add kept next).2.toList
        ++ (agreement.addAll (agreement.add kept next).1 rest).2 := rfl
    refine ⟨others, ?_⟩
    rw [step, List.filterMap_cons, List.cons_append, ← conflict, conflicts]
    cases (agreement.add kept next).2 <;> rfl

theorem Remembers.addEach (remembers : agreement.Remembers kept said)
    (later : List (List (Sourced α))) :
    (agreement.addEach kept later).2
      = later.map (·.filterMap (agreement.conflict? (said ++ later.flatten))) := by
  induction later generalizing kept said with
  | nil => rfl
  | cons next rest ih =>
    obtain ⟨remembers, conflicts⟩ := remembers.addAll next rest.flatten
    have others := ih remembers
    rw [List.append_assoc] at others
    rw [List.map_cons, List.flatten_cons, ← conflicts, ← others]
    rfl

theorem addEach_conflicts (said : List (List (Sourced α))) :
    (agreement.addEach [] said).2
      = said.map (·.filterMap (agreement.conflict? said.flatten)) :=
  Remembers.addEach (fun _ => rfl) said

theorem exists_conflict_iff {key : κ} :
    (∃ conflict ∈ said.filterMap (agreement.conflict? said),
        agreement.key conflict.later.value = key)
      ↔ agreement.Contested (said.map (·.value)) key := by
  constructor
  · rintro ⟨conflict, member, rfl⟩
    obtain ⟨later, isSaid, found⟩ := List.mem_filterMap.mp member
    obtain ⟨first, isFirst, conflicts⟩ := Option.bind_eq_some_iff.mp found
    obtain ⟨differ, equal⟩ := Option.ite_none_left_eq_some.mp conflicts
    obtain rfl := Option.some.inj equal
    obtain ⟨single, isSaid', same⟩ := first?_eq_some isFirst
    exact ⟨single, _, List.mem_map_of_mem isSaid', _, List.mem_map_of_mem isSaid, same, rfl, differ⟩
  · rintro ⟨single, _, isOne, _, isOther, sameOne, sameOther, differ⟩
    obtain ⟨one, member, rfl⟩ := List.mem_map.mp isOne
    obtain ⟨other, member', rfl⟩ := List.mem_map.mp isOther
    cases found : agreement.first? said key with
    | none =>
      rw [first?_of_single single] at found
      simpa [sameOne] using List.find?_eq_none.mp found one member
    | some first =>
      have clashes {later : Sourced α} (isSaid : later ∈ said)
          (same : agreement.key later.value = key) (differs : first.value ≠ later.value) :
          ∃ conflict ∈ said.filterMap (agreement.conflict? said),
            agreement.key conflict.later.value = key := by
        refine ⟨⟨first, later⟩, List.mem_filterMap.mpr ⟨later, isSaid, ?_⟩, same⟩
        rw [conflict?, same, found, Option.bind_some, if_neg differs]
      by_cases same : first.value = one.value
      · exact clashes member' sameOther fun same' => differ (same.symm.trans same')
      · exact clashes member sameOne same

end Agreement

namespace Fragments

variable {policy : AttributePolicy} {fragments : Fragments}

theorem disagreements_eq : fragments.disagreements policy
    = fragments.toList.flatMap fun fragment =>
      (fragment.sourcedAttributes.filterMap (policy.agreement.conflict?
          (fragments.toList.flatMap (·.sourcedAttributes)))).map Conflict.attributeCause
        ++ (fragment.sourcedStatements.filterMap (Statement.agreement.conflict?
          (fragments.toList.flatMap (·.sourcedStatements)))).map Conflict.statementCause := by
  unfold disagreements attributes statements
  rw [Agreement.addEach_conflicts, Agreement.addEach_conflicts, List.map_map, List.map_map,
    List.zipWith_map, List.zipWith_self, ← List.flatMap_def, ← List.flatMap_def, ← List.flatMap_def]
  rfl

end Fragments

end WebIdl
