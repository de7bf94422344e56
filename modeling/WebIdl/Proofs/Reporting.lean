import WebIdl.Proofs.Contents
import WebIdl.Resolution

namespace WebIdl

variable {α β : Type} {held held' : Prop}

/-- The computation gives `value`. It may only fail if not `held`. -/
def Gives (held : Prop) (computation : Except Fault α) (value : α) : Prop :=
  computation = .ok value ∨ ¬ held ∧ ∃ fault, computation = .error fault

namespace Gives

variable {computation : Except Fault α} {value : α}

theorem mono (gives : Gives held computation value) (weaker : held' → held) :
    Gives held' computation value :=
  gives.imp_right fun ⟨missing, fault⟩ => ⟨fun all => missing (weaker all), fault⟩

theorem eq_ok (gives : Gives held computation value) (all : held) : computation = .ok value :=
  gives.resolve_right fun ⟨missing, _⟩ => missing all

theorem eq_of_ok (gives : Gives held computation value) {result : α}
    (outcome : computation = .ok result) : result = value := by
  rcases gives with given | ⟨-, fault, failed⟩
  · rw [given] at outcome
    exact (Except.ok.inj outcome).symm
  · rw [failed] at outcome
    nomatch outcome

theorem pure (value : α) : Gives True (Pure.pure value : Except Fault α) value := .inl rfl

theorem bind {next : α → Except Fault β} {last : β} (first : Gives held computation value)
    (second : Gives held' (next value) last) : Gives (held ∧ held') (computation >>= next) last := by
  rcases first with given | ⟨missing, fault, failed⟩
  · rw [given]
    exact second.mono And.right
  · exact .inr ⟨fun both => missing both.1, fault, by rw [failed]; rfl⟩

theorem map (f : α → β) (gives : Gives held computation value) :
    Gives held (do return f (← computation)) (f value) :=
  have last : Gives True (Pure.pure (f value)) (f value) := pure (f value)
  have both : Gives _ (computation >>= fun given => Pure.pure (f given)) _ := gives.bind last
  both.mono fun all => ⟨all, trivial⟩

theorem mapM {items : List α} {f : α → Except Fault β} {g : α → β} {held : α → Prop}
    (each : ∀ item ∈ items, Gives (held item) (f item) (g item)) :
    Gives (∀ item ∈ items, held item) (items.mapM f) (items.map g) := by
  induction items with
  | nil => exact (pure []).mono fun _ => trivial
  | cons item items ih =>
    rw [List.mapM_cons]
    have rest := ih fun other member => each other (List.mem_cons_of_mem _ member)
    have tail := rest.map (g item :: ·)
    have both : Gives _ (f item >>= fun first => do return first :: (← items.mapM f)) _ :=
      (each item List.mem_cons_self).bind tail
    exact both.mono List.forall_mem_cons.mp

theorem filterMapM {items : List α} {f : α → Except Fault (Option β)} {g : α → Option β}
    {held : α → Prop} (each : ∀ item ∈ items, Gives (held item) (f item) (g item)) :
    Gives (∀ item ∈ items, held item) (items.filterMapM f) (items.filterMap g) := by
  induction items with
  | nil =>
    simp only [List.filterMapM_nil, List.filterMap_nil]
    exact (pure []).mono fun _ => trivial
  | cons item items ih =>
    rw [List.filterMapM_cons, List.filterMap_cons]
    have rest := ih fun other member => each other (List.mem_cons_of_mem _ member)
    refine ((each item List.mem_cons_self).bind ?_).mono List.forall_mem_cons.mp
    cases g item with
    | none => exact rest
    | some first => exact rest.map (first :: ·)

end Gives

namespace Reporting

/-- Whatever was reported before, the computation adds `problems` and gives `value`. -/
def Adds (held : Prop) (computation : Reporting α) (value : α) (problems : List Problem) : Prop :=
  ∀ before, Gives held (computation.run before) (value, before ++ problems)

namespace Adds

variable {computation : Reporting α} {value : α} {problems problems' : List Problem}

theorem mono (adds : Adds held computation value problems) (weaker : held' → held) :
    Adds held' computation value problems :=
  fun before => (adds before).mono weaker

theorem pure (value : α) : Adds True (Pure.pure value : Reporting α) value [] := by
  intro before
  rw [List.append_nil]
  exact Gives.pure (value, before)

theorem lift {computation : Except Fault α} (gives : Gives held computation value) :
    Adds held (computation : Reporting α) value [] := by
  intro before
  rw [List.append_nil]
  exact gives.map (·, before)

theorem bind {next : α → Reporting β} {last : β} (first : Adds held computation value problems)
    (second : Adds held' (next value) last problems') :
    Adds (held ∧ held') (computation >>= next) last (problems ++ problems') := by
  intro before
  rw [← List.append_assoc]
  exact (first before).bind (second (before ++ problems))

theorem map (f : α → β) (adds : Adds held computation value problems) :
    Adds held (do return f (← computation)) (f value) problems := by
  have last : Adds True (Pure.pure (f value)) (f value) [] := pure (f value)
  have both : Adds _ (computation >>= fun given => Pure.pure (f given)) _ _ := adds.bind last
  rw [List.append_nil] at both
  exact both.mono fun all => ⟨all, trivial⟩

theorem report (site : Site) (cause : Problem.Cause) :
    Adds True (site.report cause) () [⟨site.identifier, site.name, cause⟩] :=
  fun _ => Gives.pure _

theorem mapM {items : List α} {f : α → Reporting β} {g : α → β} {held : α → Prop}
    {problems : α → List Problem}
    (each : ∀ item ∈ items, Adds (held item) (f item) (g item) (problems item)) :
    Adds (∀ item ∈ items, held item) (items.mapM f) (items.map g) (items.flatMap problems) := by
  induction items with
  | nil => exact (pure []).mono fun _ => trivial
  | cons item items ih =>
    rw [List.mapM_cons, List.flatMap_cons]
    have rest := ih fun other member => each other (List.mem_cons_of_mem _ member)
    have tail := rest.map (g item :: ·)
    have both : Adds _ (f item >>= fun first => do return first :: (← items.mapM f)) _ _ :=
      (each item List.mem_cons_self).bind tail
    exact both.mono List.forall_mem_cons.mp

theorem filterMapM {items : List α} {f : α → Reporting (Option β)} {g : α → Option β}
    {held : α → Prop} {problems : α → List Problem}
    (each : ∀ item ∈ items, Adds (held item) (f item) (g item) (problems item)) :
    Adds (∀ item ∈ items, held item) (items.filterMapM f) (items.filterMap g)
      (items.flatMap problems) := by
  induction items with
  | nil =>
    simp only [List.filterMapM_nil, List.filterMap_nil]
    exact (pure []).mono fun _ => trivial
  | cons item items ih =>
    rw [List.filterMapM_cons, List.filterMap_cons, List.flatMap_cons]
    have rest := ih fun other member => each other (List.mem_cons_of_mem _ member)
    refine ((each item List.mem_cons_self).bind ?_).mono List.forall_mem_cons.mp
    cases g item with
    | none => exact rest
    | some first => exact rest.map (first :: ·)

theorem bindM {item? : Option α} {f : α → Reporting (Option β)} {g : α → Option β}
    {held : α → Prop} {problems : α → List Problem}
    (each : ∀ item ∈ item?, Adds (held item) (f item) (g item) (problems item)) :
    Adds (∀ item ∈ item?, held item) (item?.bindM f) (item?.bind g)
      (item?.toList.flatMap problems) := by
  cases item? with
  | none => exact (pure none).mono fun _ => trivial
  | some item =>
    have only := each item rfl
    simp only [Option.bindM, Option.bind_some, Option.toList_some, List.flatMap_cons,
      List.flatMap_nil, List.append_nil]
    exact only.mono fun all => all item rfl

end Adds

end Reporting

end WebIdl
