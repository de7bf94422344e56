import Mathlib.Data.List.Induction
import Mathlib.Data.List.Nodup
import WebIdl.Proofs.Conflicts
import WebIdl.Proofs.Turns

namespace WebIdl

variable {α κ : Type}

namespace Agreement

/-- Nothing said earlier leaves out what is said next: it is new, and unless its key is repeatable
    it is the first about its key. -/
def Stands (agreement : Agreement α κ) (earlier : List (Sourced α)) (next : Sourced α) : Prop :=
  if agreement.isRepeatable (agreement.key next.value) then
    ∀ other ∈ earlier, other.value ≠ next.value
  else ∀ other ∈ earlier, agreement.key other.value ≠ agreement.key next.value

def Rivals (agreement : Agreement α κ) (one other : α) : Prop :=
  agreement.key one = agreement.key other
    ∧ (agreement.isRepeatable (agreement.key other) = true → one = other)

variable {agreement : Agreement α κ} {earlier said : List (Sourced α)} {next : Sourced α}

theorem Rivals.refl (value : α) : agreement.Rivals value value := ⟨rfl, fun _ => rfl⟩

theorem Rivals.trans {one other third : α} (first : agreement.Rivals one other)
    (second : agreement.Rivals other third) : agreement.Rivals one third := by
  constructor
  · exact first.1.trans second.1
  · intro repeatable
    rw [← second.2 repeatable]
    apply first.2
    rw [second.1]
    exact repeatable

theorem stands_iff : agreement.Stands earlier next
    ↔ ∀ other ∈ earlier, ¬ agreement.Rivals other.value next.value := by
  unfold Stands Rivals
  split
  · rename_i repeatable
    constructor
    · intro new other member rivals
      exact new other member (rivals.2 repeatable)
    · intro none other member same
      exact none other member ⟨congrArg agreement.key same, fun _ => same⟩
  · rename_i single
    constructor
    · intro new other member rivals
      exact new other member rivals.1
    · intro none other member same
      exact none other member ⟨same, fun repeatable => absurd repeatable single⟩

variable [DecidableEq α] [DecidableEq κ]

instance (agreement : Agreement α κ) (earlier : List (Sourced α)) (next : Sourced α) :
    Decidable (agreement.Stands earlier next) :=
  decidable_of_iff (if agreement.isRepeatable (agreement.key next.value) then
    ∀ other ∈ earlier, other.value ≠ next.value
    else ∀ other ∈ earlier, agreement.key other.value ≠ agreement.key next.value) Iff.rfl

def standing (agreement : Agreement α κ) (said : List (Sourced α)) : List (Sourced α) :=
  inTurn (fun earlier next => if agreement.Stands earlier next then [next] else []) [] said

theorem standing_concat (agreement : Agreement α κ) (said : List (Sourced α)) (next : Sourced α) :
    agreement.standing (said ++ [next])
      = agreement.standing said ++ if agreement.Stands said next then [next] else [] :=
  inTurn_concat _ said next

theorem standing_sublist (agreement : Agreement α κ) (said : List (Sourced α)) :
    (agreement.standing said).Sublist said := by
  induction said using List.reverseRecOn with
  | nil => exact .slnil
  | append_singleton said next ih =>
    rw [standing_concat]
    apply ih.append
    split
    · exact List.Sublist.refl _
    · exact List.nil_sublist _

/-- Whatever does not stand itself has a rival that does. -/
theorem exists_rival_standing (agreement : Agreement α κ) {said : List (Sourced α)}
    {item : Sourced α} (member : item ∈ said) :
    ∃ first ∈ agreement.standing said, agreement.Rivals first.value item.value := by
  induction said using List.reverseRecOn generalizing item with
  | nil => cases member
  | append_singleton said next ih =>
    rw [standing_concat]
    cases List.mem_append.mp member with
    | inl early =>
      obtain ⟨first, stands, rivals⟩ := ih early
      exact ⟨first, List.mem_append_left _ stands, rivals⟩
    | inr late =>
      obtain rfl := List.mem_singleton.mp late
      by_cases stands : agreement.Stands said item
      · rw [if_pos stands]
        exact ⟨item, List.mem_append_right _ late, .refl _⟩
      · have earlier : ∃ other ∈ said, agreement.Rivals other.value item.value := by
          simpa [stands_iff] using stands
        obtain ⟨other, early, rivals⟩ := earlier
        obtain ⟨first, stands, rivals'⟩ := ih early
        exact ⟨first, List.mem_append_left _ stands, rivals'.trans rivals⟩

theorem stands_standing_iff :
    agreement.Stands (agreement.standing said) next ↔ agreement.Stands said next := by
  rw [stands_iff, stands_iff]
  constructor
  · intro none other member rivals
    obtain ⟨first, stands, rivals'⟩ := agreement.exists_rival_standing member
    exact none first stands (rivals'.trans rivals)
  · intro none other member
    exact none other ((agreement.standing_sublist said).subset member)

theorem add_fst (agreement : Agreement α κ) (kept : List (Sourced α)) (next : Sourced α) :
    (agreement.add kept next).1
      = if agreement.Stands kept next then kept ++ [next] else kept := by
  cases single : agreement.isRepeatable (agreement.key next.value) with
  | true =>
    have stands : agreement.Stands kept next ↔ ¬ kept.any (·.value = next.value) := by
      simp [Stands, single]
    rw [add_of_repeatable single]
    by_cases known : kept.any (·.value = next.value)
    · rw [if_pos known, if_neg fun new => stands.mp new known]
    · rw [if_neg known, if_pos (stands.mpr known)]
  | false =>
    have stands : agreement.Stands kept next
        ↔ kept.find? (agreement.key ·.value = agreement.key next.value) = none := by
      simp [Stands, single]
    cases found : kept.find? (agreement.key ·.value = agreement.key next.value) with
    | none => rw [add_of_unknown single found, if_pos (stands.mpr found)]
    | some first =>
      have known : ¬ agreement.Stands kept next := by simp [stands, found]
      rw [add_of_known single found, if_neg known]

theorem addAll_fst (agreement : Agreement α κ) (earlier later : List (Sourced α)) :
    (agreement.addAll (agreement.standing earlier) later).1
      = agreement.standing (earlier ++ later) := by
  induction later generalizing earlier with
  | nil =>
    rw [List.append_nil]
    rfl
  | cons next rest ih =>
    have step : (agreement.add (agreement.standing earlier) next).1
        = agreement.standing (earlier ++ [next]) := by
      rw [add_fst, standing_concat, if_congr stands_standing_iff rfl rfl]
      split
      · rfl
      · exact (List.append_nil _).symm
    rw [List.append_cons, ← ih, ← step]
    rfl

theorem addEach_fst (agreement : Agreement α κ) (said : List (List (Sourced α))) :
    (agreement.addEach [] said).1 = agreement.standing said.flatten := by
  rw [(addEach_eq_addAll [] said).1]
  exact agreement.addAll_fst [] said.flatten

theorem nodup_standing (agreement : Agreement α κ) (said : List (Sourced α)) :
    ((agreement.standing said).map (·.value)).Nodup := by
  induction said using List.reverseRecOn with
  | nil => exact List.nodup_nil
  | append_singleton said next ih =>
    rw [standing_concat]
    by_cases stands : agreement.Stands said next
    · rw [if_pos stands, List.map_append]
      apply List.nodup_append.mpr
      refine ⟨ih, List.nodup_singleton _, fun value known value' new same => ?_⟩
      obtain ⟨other, member, rfl⟩ := List.mem_map.mp known
      have equal : other.value = next.value := same.trans (List.mem_singleton.mp new)
      have early := (agreement.standing_sublist said).subset member
      exact stands_iff.mp stands other early (equal ▸ .refl other.value)
    · rw [if_neg stands, List.append_nil]
      exact ih

theorem countP_standing_le_one (agreement : Agreement α κ) {key : κ}
    (single : agreement.isRepeatable key = false) (said : List (Sourced α)) :
    (agreement.standing said).countP (agreement.key ·.value = key) ≤ 1 := by
  induction said using List.reverseRecOn with
  | nil => exact Nat.zero_le 1
  | append_singleton said next ih =>
    rw [standing_concat]
    by_cases stands : agreement.Stands said next
    · rw [if_pos stands, List.countP_append]
      by_cases same : agreement.key next.value = key
      · -- What stands next is the first about its key.
        have none : (agreement.standing said).countP (agreement.key ·.value = key) = 0 := by
          apply List.countP_eq_zero.mpr
          intro other member isKey
          have early := (agreement.standing_sublist said).subset member
          have rivals : agreement.Rivals other.value next.value :=
            ⟨(of_decide_eq_true isKey).trans same.symm,
              fun repeatable => by rw [same, single] at repeatable; cases repeatable⟩
          exact stands_iff.mp stands other early rivals
        rw [none, Nat.zero_add]
        exact List.countP_le_length
      · simpa [same] using ih
    · rw [if_neg stands, List.append_nil]
      exact ih

end Agreement

theorem ExtendedAttribute.eq_iff_of_key {one other : ExtendedAttribute}
    (key : one.key = other.key) : one = other ↔ one.value = other.value := by
  obtain ⟨_, value⟩ := one
  obtain ⟨_, value'⟩ := other
  obtain rfl := key
  simp

namespace AttributePolicy

def Stands (policy : AttributePolicy) (earlier : List ExtendedAttribute)
    (next : ExtendedAttribute) : Prop :=
  if policy.isRepeatable next.key then next ∉ earlier
  else ∀ other ∈ earlier, other.key ≠ next.key

instance (policy : AttributePolicy) (earlier : List ExtendedAttribute) (next : ExtendedAttribute) :
    Decidable (policy.Stands earlier next) :=
  decidable_of_iff (if policy.isRepeatable next.key then next ∉ earlier
    else ∀ other ∈ earlier, other.key ≠ next.key) Iff.rfl

def standing (policy : AttributePolicy) (entries : List ExtendedAttribute) :
    List ExtendedAttribute :=
  inTurn (fun earlier next => if policy.Stands earlier next then [next] else []) [] entries

/-- An entry of a key that is not repeatable conflicts with the first one of its key if it has
    another value. -/
def conflict? (policy : AttributePolicy) (said : List (Sourced ExtendedAttribute))
    (entry : Sourced ExtendedAttribute) : Option Problem.Cause :=
  if policy.isRepeatable entry.value.key then none
  else (said.find? (·.value.key = entry.value.key)).bind fun first =>
    if first.value.value = entry.value.value then none
    else some (.duplicateAttribute entry.value.key first.locations entry.locations)

structure Unites (policy : AttributePolicy) (together : List Fragment)
    (attributes : List ExtendedAttribute) (conflicts : List (List (Conflict ExtendedAttribute))) :
    Prop where
  standing : attributes = policy.standing (together.flatMap (·.attributes.entries))
  inOrder : attributes.Sublist (together.flatMap (·.attributes.entries))
  distinct : attributes.Nodup
  single : ∀ key, policy.isRepeatable key = false → attributes.countP (·.key = key) ≤ 1
  conflicts : conflicts.map (·.map Conflict.attributeCause)
    = together.map fun fragment => fragment.attributes.entries.filterMap fun entry =>
      policy.conflict?
        (together.flatMap fun other => other.attributes.entries.map (⟨·, other.locations⟩))
        ⟨entry, fragment.locations⟩

theorem standing_eq (policy : AttributePolicy) (said : List (Sourced ExtendedAttribute)) :
    (policy.agreement.standing said).map (·.value) = policy.standing (said.map (·.value)) := by
  have stands (earlier : List (Sourced ExtendedAttribute)) (next : Sourced ExtendedAttribute) :
      policy.agreement.Stands earlier next
        ↔ policy.Stands (earlier.map (·.value)) next.value := by
    have key : policy.agreement.key = ExtendedAttribute.key := rfl
    have isRepeatable : policy.agreement.isRepeatable = policy.isRepeatable := rfl
    simp [Agreement.Stands, Stands, key, isRepeatable]
  induction said using List.reverseRecOn with
  | nil => rfl
  | append_singleton said next ih =>
    rw [Agreement.standing_concat, List.map_append, ih, List.map_append, List.map_singleton,
      standing, standing, inTurn_concat, if_congr (stands said next) rfl rfl]
    split <;> rfl

theorem conflict?_eq (policy : AttributePolicy) (said : List (Sourced ExtendedAttribute))
    (entry : Sourced ExtendedAttribute) :
    (policy.agreement.conflict? said entry).map Conflict.attributeCause
      = policy.conflict? said entry := by
  unfold Agreement.conflict? Agreement.first? conflict?
  have repeatable : policy.agreement.isRepeatable (policy.agreement.key entry.value)
      = policy.isRepeatable entry.value.key := rfl
  rw [repeatable]
  by_cases repeats : policy.isRepeatable entry.value.key
  · rw [if_pos repeats, if_pos repeats]
    rfl
  · rw [if_neg repeats, if_neg repeats, Option.map_bind]
    apply Option.bind_congr
    intro first found
    have sameKey := List.find?_some found
    have key : first.value.key = entry.value.key := of_decide_eq_true sameKey
    have equal := ExtendedAttribute.eq_iff_of_key key
    show Option.map _ (if first.value = entry.value then none else _) = _
    rw [if_congr equal rfl rfl]
    split <;> rfl

theorem unites_addEach (policy : AttributePolicy) (together : List Fragment) :
    policy.Unites together
      ((policy.agreement.addEach [] (together.map (·.sourcedAttributes))).1.map (·.value))
      (policy.agreement.addEach [] (together.map (·.sourcedAttributes))).2 := by
  rw [Agreement.addEach_fst, Agreement.addEach_conflicts, ← List.flatMap_def]
  have sublist := (policy.agreement.standing_sublist
    (together.flatMap (·.sourcedAttributes))).map (·.value)
  rw [map_value_attributes] at sublist
  exact {
    standing := by rw [standing_eq, map_value_attributes]
    inOrder := sublist
    distinct := policy.agreement.nodup_standing _
    single := fun key single => by
      rw [List.countP_map]
      exact policy.agreement.countP_standing_le_one single _
    conflicts := by
      rw [List.map_map, List.map_map]
      apply List.map_congr_left
      intro fragment _
      show (fragment.sourcedAttributes.filterMap _).map Conflict.attributeCause = _
      rw [Fragment.sourcedAttributes, List.filterMap_map, List.map_filterMap]
      apply List.filterMap_congr
      exact fun entry _ => policy.conflict?_eq _ ⟨entry, fragment.locations⟩ }

/-- The attributes of fragments, merged or not, are united as the policy says: every distinct entry
    of a repeatable key and the first one of any other key stand, in the order given. -/
theorem unites_attributes (policy : AttributePolicy) (together : List Fragment) :
    policy.Unites together
        ((policy.agreement.addEach [] (together.map fun fragment =>
          fragment.attributes.entries.map (⟨·, fragment.locations⟩))).1.map (·.value))
        (policy.agreement.addEach [] (together.map fun fragment =>
          fragment.attributes.entries.map (⟨·, fragment.locations⟩))).2
      ∧ ∀ (fragments : Fragments) (identifier : Identifier), policy.Unites fragments.toList
        (fragments.definition policy identifier).declaration.attributes.entries
        (fragments.attributes policy).2 :=
  ⟨policy.unites_addEach together, fun fragments _ => policy.unites_addEach fragments.toList⟩

end AttributePolicy

def Fragment.annotated (line : UInt32) (entries : List ExtendedAttribute) : Fragment where
  identifier := ⟨0x20000000⟩
  body := .interface none [] []
  isPartial := false
  sourceOrder := 0
  component := .unspecified
  attributes := ⟨entries⟩
  hints := .unset
  locations := .single ⟨"node.idl", .line line⟩

/-- `Exposed` is repeatable and `Global` is not. -/
def Fragments.contested : Fragments where
  first := .annotated 1
    [⟨"Exposed", .ident "Window"⟩, ⟨"Global", .flag⟩, ⟨"Exposed", .ident "Window"⟩]
  others :=
    [.annotated 2 [⟨"Global", .ident "Window"⟩, ⟨"Exposed", .ident "Worker"⟩, ⟨"Global", .flag⟩],
      .annotated 3 [⟨"Global", .ident "Window"⟩]]

theorem AttributePolicy.unites_contested :
    (Fragments.contested.definition .standard ⟨0x20000000⟩).declaration.attributes.entries
        = [⟨"Exposed", .ident "Window"⟩, ⟨"Global", .flag⟩, ⟨"Exposed", .ident "Worker"⟩]
      ∧ (Fragments.contested.attributes .standard).2.map (·.map Conflict.attributeCause)
        = [[],
          [.duplicateAttribute "Global" (.single ⟨"node.idl", .line 1⟩)
            (.single ⟨"node.idl", .line 2⟩)],
          [.duplicateAttribute "Global" (.single ⟨"node.idl", .line 1⟩)
            (.single ⟨"node.idl", .line 3⟩)]]
      ∧ Unites .standard Fragments.contested.toList
        [⟨"Exposed", .ident "Window"⟩, ⟨"Global", .flag⟩, ⟨"Exposed", .ident "Worker"⟩]
        (Fragments.contested.attributes .standard).2 := by
  have entries :
      (Fragments.contested.definition .standard ⟨0x20000000⟩).declaration.attributes.entries
        = [⟨"Exposed", .ident "Window"⟩, ⟨"Global", .flag⟩, ⟨"Exposed", .ident "Worker"⟩] := by
    decide +kernel
  have united := (unites_attributes .standard []).2 Fragments.contested ⟨0x20000000⟩
  rw [entries] at united
  exact ⟨entries, by decide +kernel, united⟩

end WebIdl
