import WebIdl.Agreement

namespace WebIdl

variable {α κ : Type}

namespace Agreement

variable {agreement : Agreement α κ}

def Consistent (agreement : Agreement α κ) (values : List α) : Prop :=
  ∀ one ∈ values, ∀ other ∈ values, agreement.key one = agreement.key other →
    agreement.isRepeatable (agreement.key one) = false → one = other

theorem Consistent.of_subset {values more : List α} (consistent : agreement.Consistent more)
    (subset : ∀ value ∈ values, value ∈ more) : agreement.Consistent values :=
  fun one member other member' => consistent one (subset one member) other (subset other member')

theorem consistent_congr {values values' : List α}
    (same : ∀ value, value ∈ values ↔ value ∈ values') :
    agreement.Consistent values ↔ agreement.Consistent values' := by
  simp only [Consistent, same]

theorem consistent_nil : agreement.Consistent [] := nofun

theorem consistent_concat_iff {values : List α} (consistent : agreement.Consistent values)
    (value : α) :
    agreement.Consistent (values ++ [value]) ↔ (agreement.isRepeatable (agreement.key value) = false →
      ∀ earlier ∈ values, agreement.key earlier = agreement.key value → earlier = value) := by
  constructor
  · intro all unique earlier member same
    exact all earlier (by simp [member]) value (by simp) same (same ▸ unique)
  · intro last one member other member' same unique
    rcases List.mem_append.mp member with early | late <;>
      rcases List.mem_append.mp member' with early' | late'
    · exact consistent one early other early' same unique
    · obtain rfl := List.mem_singleton.mp late'
      exact last (same ▸ unique) one early same
    · obtain rfl := List.mem_singleton.mp late
      exact (last unique other early' same.symm).symm
    · rw [List.mem_singleton.mp late, List.mem_singleton.mp late']

variable [DecidableEq α]

theorem map_value_concat (kept : List (Sourced α)) (said : Sourced α) :
    (if kept.any (·.value = said.value) then kept else kept ++ [said]).map (·.value)
      = appendNew (kept.map (·.value)) [said.value] := by
  rw [appendNew_cons, appendNew_nil]
  by_cases known : said.value ∈ kept.map (·.value)
  · have found : kept.any (·.value = said.value) := by
      obtain ⟨earlier, member, same⟩ := List.mem_map.mp known
      exact List.any_eq_true.mpr ⟨earlier, member, by simpa using same⟩
    rw [if_pos found, if_pos known]
  · have missing : ¬ kept.any (·.value = said.value) = true := by
      intro found
      obtain ⟨earlier, member, same⟩ := List.any_eq_true.mp found
      exact known (List.mem_map.mpr ⟨earlier, member, by simpa using same⟩)
    rw [if_neg missing, if_neg known, List.map_append]
    rfl

variable [DecidableEq κ]

section
variable {kept : List (Sourced α)} {said : Sourced α}

theorem add_of_repeatable (repeatable : agreement.isRepeatable (agreement.key said.value) = true) :
    agreement.add kept said
      = (if kept.any (·.value = said.value) then kept else kept ++ [said], none) := by
  unfold add
  rw [if_pos repeatable]
  split <;> rfl

theorem add_of_unknown (single : agreement.isRepeatable (agreement.key said.value) = false)
    (found : kept.find? (agreement.key ·.value = agreement.key said.value) = none) :
    agreement.add kept said = (kept ++ [said], none) := by
  simp [add, single, found]

theorem add_of_known (single : agreement.isRepeatable (agreement.key said.value) = false)
    {first : Sourced α}
    (found : kept.find? (agreement.key ·.value = agreement.key said.value) = some first) :
    agreement.add kept said
      = (kept, if first.value = said.value then none else some ⟨first, said⟩) := by
  by_cases same : first.value = said.value <;>
    simp [add, single, found, same]

end

theorem add_spec {kept : List (Sourced α)} (said : Sourced α)
    (consistent : agreement.Consistent (kept.map (·.value))) :
    ((agreement.add kept said).2 = none
        ↔ agreement.Consistent (kept.map (·.value) ++ [said.value]))
      ∧ ((agreement.add kept said).2 = none →
        (agreement.add kept said).1.map (·.value) = appendNew (kept.map (·.value)) [said.value]) := by
  rw [consistent_concat_iff consistent]
  cases single : agreement.isRepeatable (agreement.key said.value) with
  | true =>
    rw [add_of_repeatable single]
    exact ⟨by simp, fun _ => map_value_concat kept said⟩
  | false =>
    cases found : kept.find? (agreement.key ·.value = agreement.key said.value) with
    | none =>
      have unknown : ∀ earlier ∈ kept.map (·.value),
          agreement.key earlier ≠ agreement.key said.value := by
        simpa using found
      have new : said.value ∉ kept.map (·.value) := fun member => unknown said.value member rfl
      rw [add_of_unknown single found]
      refine ⟨⟨fun _ _ earlier member same => absurd same (unknown earlier member), fun _ => rfl⟩,
        fun _ => ?_⟩
      rw [appendNew_cons, appendNew_nil, if_neg new, List.map_append]
      rfl
    | some first =>
      have key : agreement.key first.value = agreement.key said.value := by
        simpa using List.find?_some found
      have member : first.value ∈ kept.map (·.value) :=
        List.mem_map_of_mem (List.mem_of_find?_eq_some found)
      rw [add_of_known single found]
      by_cases same : first.value = said.value
      · rw [if_pos same]
        refine ⟨⟨fun _ _ earlier member' key' => ?_, fun _ => rfl⟩, fun _ => ?_⟩
        · rw [← same] at key' ⊢
          exact consistent earlier member' first.value member key' (by rw [key', key, single])
        · rw [appendNew_cons, appendNew_nil, if_pos (same ▸ member)]
      · rw [if_neg same]
        exact ⟨⟨nofun, fun all => absurd (all rfl first.value member key) same⟩, nofun⟩

theorem addAll_spec {kept : List (Sourced α)} (said : List (Sourced α))
    (consistent : agreement.Consistent (kept.map (·.value))) :
    ((agreement.addAll kept said).2 = []
        ↔ agreement.Consistent (kept.map (·.value) ++ said.map (·.value)))
      ∧ ((agreement.addAll kept said).2 = [] →
        (agreement.addAll kept said).1.map (·.value)
          = appendNew (kept.map (·.value)) (said.map (·.value))) := by
  induction said generalizing kept with
  | nil => simpa [addAll] using consistent
  | cons next rest ih =>
    have first := add_spec next consistent
    have step : agreement.addAll kept (next :: rest)
        = ((agreement.addAll (agreement.add kept next).1 rest).1, (agreement.add kept next).2.toList
          ++ (agreement.addAll (agreement.add kept next).1 rest).2) := rfl
    rw [step, List.map_cons, List.append_cons]
    cases outcome : (agreement.add kept next).2 with
    | some conflict =>
      have clash : ¬ agreement.Consistent (kept.map (·.value) ++ [next.value] ++ rest.map (·.value)) := by
        intro all
        have accepted := first.1.mpr (all.of_subset fun value => List.mem_append_left _)
        rw [outcome] at accepted
        nomatch accepted
      exact ⟨⟨nofun, fun all => absurd all clash⟩, nofun⟩
    | none =>
      have kept' := first.2 outcome
      have members (value : α) : value ∈ (agreement.add kept next).1.map (·.value)
          ↔ value ∈ kept.map (·.value) ++ [next.value] := by
        rw [kept', mem_appendNew, List.mem_append]
      have others := ih ((consistent_congr members).mpr (first.1.mp outcome))
      simp only [Option.toList_none, List.nil_append]
      refine ⟨others.1.trans (consistent_congr fun value => ?_), fun accepted => ?_⟩
      · rw [List.mem_append, members, ← List.mem_append]
      · rw [others.2 accepted, kept', ← appendNew_append, List.singleton_append]

theorem addAll_append (kept said more : List (Sourced α)) :
    agreement.addAll kept (said ++ more)
      = ((agreement.addAll (agreement.addAll kept said).1 more).1,
        (agreement.addAll kept said).2
          ++ (agreement.addAll (agreement.addAll kept said).1 more).2) := by
  induction said generalizing kept with
  | nil => rfl
  | cons next rest ih =>
    rw [List.cons_append]
    simp only [addAll, ih, List.append_assoc]

theorem addEach_eq_addAll (kept : List (Sourced α)) (said : List (List (Sourced α))) :
    (agreement.addEach kept said).1 = (agreement.addAll kept said.flatten).1
      ∧ (agreement.addEach kept said).2.flatten = (agreement.addAll kept said.flatten).2 := by
  induction said generalizing kept with
  | nil => exact ⟨rfl, rfl⟩
  | cons next rest ih =>
    have others := ih (agreement.addAll kept next).1
    rw [List.flatten_cons, addAll_append]
    exact ⟨others.1, congrArg _ others.2⟩

theorem length_addEach (kept : List (Sourced α)) (said : List (List (Sourced α))) :
    (agreement.addEach kept said).2.length = said.length := by
  induction said generalizing kept with
  | nil => rfl
  | cons next rest ih => exact congrArg (· + 1) (ih _)

/-- There is no conflict if and only if all fragments together are consistent, however what they
    say is spread over them. What they say is then kept once each. -/
theorem addEach_spec (said : List (List (Sourced α))) :
    ((agreement.addEach [] said).2.flatten = []
        ↔ agreement.Consistent (said.flatten.map (·.value)))
      ∧ ((agreement.addEach [] said).2.flatten = [] →
        (agreement.addEach [] said).1.map (·.value)
          = firstOccurrences (said.flatten.map (·.value))) := by
  have consistent : agreement.Consistent (([] : List (Sourced α)).map (·.value)) := consistent_nil
  have kept : (agreement.addEach [] said).1 = (agreement.addAll [] said.flatten).1 :=
    (addEach_eq_addAll [] said).1
  have conflicts : (agreement.addEach [] said).2.flatten = (agreement.addAll [] said.flatten).2 :=
    (addEach_eq_addAll [] said).2
  rw [kept, conflicts]
  exact addAll_spec said.flatten consistent

end Agreement

end WebIdl
