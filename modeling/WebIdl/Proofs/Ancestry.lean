import Mathlib.Logic.Relation
import WebIdl.Inheritance

namespace WebIdl

namespace Inheritance

variable {α : Type} {parent? : α → Option α}

def IsParent (parent? : α → Option α) (parent child : α) : Prop := parent? child = some parent

/-- The path begins with `next`, each of its items is followed by its parent, and the last one by
    `stop`. -/
def Follows (parent? : α → Option α) : Option α → List α → Option α → Prop
  | next, [], stop => next = stop
  | next, item :: path, stop => next = some item ∧ Follows parent? (parent? item) path stop

def IsCycle (parent? : α → Option α) (cycle : List α) : Prop :=
  cycle ≠ [] ∧ Follows parent? cycle.head? cycle cycle.head?

theorem Follows.acc {next : Option α} {path : List α} {stop : Option α}
    (follows : Follows parent? next path stop)
    (ends : ∀ last ∈ stop, Acc (IsParent parent?) last) :
    (∀ item ∈ path, Acc (IsParent parent?) item) ∧ ∀ first ∈ next, Acc (IsParent parent?) first := by
  induction path generalizing next with
  | nil =>
    cases follows
    exact ⟨nofun, ends⟩
  | cons first rest ih =>
    obtain ⟨rfl, follows⟩ := follows
    have later := ih follows
    have accessible : Acc (IsParent parent?) first :=
      Acc.intro first fun parent isParent => later.2 parent isParent
    refine ⟨fun item member => ?_, fun item same => Option.some.inj same ▸ accessible⟩
    rcases List.mem_cons.mp member with rfl | member
    · exact accessible
    · exact later.1 item member

theorem Follows.transGen {first last item : α} {path : List α}
    (follows : Follows parent? (some first) path (some last)) (member : item ∈ path) :
    Relation.ReflTransGen (IsParent parent?) item first
      ∧ Relation.TransGen (IsParent parent?) last item := by
  induction path generalizing first item with
  | nil => nomatch member
  | cons head rest ih =>
    obtain ⟨same, follows⟩ := follows
    obtain rfl := Option.some.inj same
    cases rest with
    | nil =>
      rw [List.mem_singleton.mp member]
      exact ⟨.refl, .single follows⟩
    | cons second rest =>
      have isParent : parent? first = some second := follows.1
      rw [isParent] at follows
      rcases List.mem_cons.mp member with rfl | later
      · exact ⟨.refl, (ih follows List.mem_cons_self).2.tail isParent⟩
      · exact ⟨(ih follows later).1.tail isParent, (ih follows later).2⟩

theorem IsCycle.transGen {cycle : List α} (isCycle : IsCycle parent? cycle) :
    ∀ item ∈ cycle, Relation.TransGen (IsParent parent?) item item := by
  intro item member
  obtain ⟨-, follows⟩ := isCycle
  cases cycle with
  | nil => nomatch member
  | cons first rest =>
    obtain ⟨fromFirst, toEnd⟩ := follows.transGen member
    exact Relation.TransGen.trans_right fromFirst toEnd

theorem not_transGen_of_acc {item : α} (accessible : Acc (IsParent parent?) item) :
    ¬ Relation.TransGen (IsParent parent?) item item := by
  induction accessible.transGen with
  | intro item _ ih => exact fun around => ih item around (accessible.inv_of_transGen around) around

structure Walked (parent? : α → Option α) (fresh : List α) (start : α)
    (walked : List α × Option α) : Prop where
  inside : ∀ item ∈ walked.1, item ∈ fresh
  follows : Follows parent? (some start) walked.1 walked.2
  stops : ∀ stop ∈ walked.2, stop ∈ walked.1 ∨ stop ∉ fresh

theorem Walked.start_visited {fresh : List α} {start : α} {walked : List α × Option α}
    (walk : Walked parent? fresh start walked) : start ∈ walked.1 ∨ start ∉ fresh := by
  obtain ⟨path, stop⟩ := walked
  cases path with
  | nil => exact walk.stops start walk.follows.symm
  | cons first rest => exact .inl (Option.some.inj walk.follows.1 ▸ List.mem_cons_self)

variable [DecidableEq α]

theorem walked_walk (fresh : List α) (start : α) :
    Walked parent? fresh start (walk parent? fresh start) := by
  fun_induction walk parent? fresh start with
  | case1 fresh start isFresh root =>
    exact {
      inside := fun item member => List.mem_singleton.mp member ▸ isFresh
      follows := ⟨rfl, root⟩
      stops := nofun }
  | case2 fresh start isFresh parent isParent path stop walked ih =>
    rw [walked] at ih
    constructor
    · intro item member
      rcases List.mem_cons.mp member with rfl | member
      · exact isFresh
      · exact (mem_without.mp (ih.inside item member)).1
    · exact ⟨rfl, isParent ▸ ih.follows⟩
    · intro last isLast
      rcases ih.stops last isLast with member | notFresh
      · exact .inl (List.mem_cons_of_mem _ member)
      · by_cases same : last = start
        · exact .inl (same ▸ List.mem_cons_self)
        · exact .inr fun member => notFresh (mem_without.mpr ⟨member, same⟩)
  | case3 fresh start notFresh =>
    exact {
      inside := nofun
      follows := rfl
      stops := fun stop same => .inr (Option.some.inj same ▸ notFresh) }

theorem Follows.dropWhile {next : Option α} {path : List α} {stop : Option α}
    (follows : Follows parent? next path stop) {item : α} (member : item ∈ path) :
    ∃ rest, path.dropWhile (· ≠ item) = item :: rest
      ∧ Follows parent? (some item) (item :: rest) stop := by
  induction path generalizing next with
  | nil => nomatch member
  | cons first rest ih =>
    by_cases same : first = item
    · subst same
      exact ⟨rest, by simp, rfl, follows.2⟩
    · have later : item ∈ rest := (List.mem_cons.mp member).resolve_left fun equal => same equal.symm
      rw [List.dropWhile_cons_of_pos (by simpa using same)]
      exact ih follows.2 later

theorem loop_eq_nil_or_isCycle {fresh : List α} {start : α} {walked : List α × Option α}
    (walk : Walked parent? fresh start walked) :
    (loop walked = [] ∧ ∀ stop ∈ walked.2, stop ∉ fresh) ∨ IsCycle parent? (loop walked) := by
  obtain ⟨path, stop⟩ := walked
  cases stop with
  | none => exact .inl ⟨rfl, nofun⟩
  | some stop =>
    by_cases member : stop ∈ path
    · obtain ⟨rest, dropped, follows⟩ := walk.follows.dropWhile member
      have cycle : loop (path, some stop) = stop :: rest := dropped
      rw [cycle]
      exact .inr ⟨by simp, follows⟩
    · have skipped : loop (path, some stop) = [] := by
        have before : ∀ item ∈ path, decide (item ≠ stop) := by
          intro item inside
          have differs : item ≠ stop := fun same => member (same ▸ inside)
          simpa using differs
        have dropped : (path ++ []).dropWhile (· ≠ stop) = [] := List.dropWhile_append_of_pos before
        rwa [List.append_nil] at dropped
      refine .inl ⟨skipped, fun last same => ?_⟩
      rw [← Option.some.inj same]
      exact (walk.stops stop rfl).resolve_left member

theorem loop_sublist (walked : List α × Option α) : (loop walked).Sublist walked.1 := by
  obtain ⟨path, stop⟩ := walked
  cases stop with
  | none => exact List.nil_sublist path
  | some stop => exact List.dropWhile_sublist _

theorem loops_cons (fresh : List α) (start : α) (starts : List α) :
    loops parent? fresh (start :: starts)
      = (if loop (walk parent? fresh start) = [] then [] else [loop (walk parent? fresh start)])
        ++ loops parent? (fresh.filter (· ∉ (walk parent? fresh start).1)) starts := by
  simp only [loops]
  cases loop (walk parent? fresh start) <;> rfl

theorem exists_walk_of_mem_loops {fresh starts : List α} {cycle : List α}
    (member : cycle ∈ loops parent? fresh starts) :
    ∃ left start, (∀ item ∈ left, item ∈ fresh) ∧ cycle = loop (walk parent? left start)
      ∧ cycle ≠ [] := by
  induction starts generalizing fresh with
  | nil => nomatch member
  | cons start starts ih =>
    rw [loops_cons, List.mem_append] at member
    rcases member with first | later
    · split at first
      · nomatch first
      · rename_i closed
        rw [List.mem_singleton.mp first]
        exact ⟨fresh, start, fun item isFresh => isFresh, rfl, closed⟩
    · obtain ⟨left, start, inside, isLoop, nonempty⟩ := ih later
      exact ⟨left, start, fun item isLeft => (List.mem_filter.mp (inside item isLeft)).1, isLoop,
        nonempty⟩

theorem isCycle_of_mem_loops {fresh starts : List α} {cycle : List α}
    (member : cycle ∈ loops parent? fresh starts) :
    IsCycle parent? cycle ∧ ∀ item ∈ cycle, item ∈ fresh := by
  obtain ⟨left, start, inside, rfl, nonempty⟩ := exists_walk_of_mem_loops member
  have walked : Walked parent? left start (walk parent? left start) := walked_walk left start
  refine ⟨(loop_eq_nil_or_isCycle walked).resolve_left fun open_ => nonempty open_.1, ?_⟩
  exact fun item onLoop => inside item (walked.inside item ((loop_sublist _).mem onLoop))

theorem acc_of_loops_eq_nil {fresh starts : List α}
    (visited : ∀ item, item ∉ fresh → Acc (IsParent parent?) item)
    (none : loops parent? fresh starts = []) :
    ∀ start ∈ starts, Acc (IsParent parent?) start := by
  induction starts generalizing fresh with
  | nil => exact nofun
  | cons start starts ih =>
    rw [loops_cons, List.append_eq_nil_iff] at none
    have walked : Walked parent? fresh start (walk parent? fresh start) := walked_walk fresh start
    have open_ : loop (walk parent? fresh start) = [] := by
      by_cases closed : loop (walk parent? fresh start) = []
      · exact closed
      · rw [if_neg closed] at none
        nomatch none.1
    have stops : ∀ stop ∈ (walk parent? fresh start).2, stop ∉ fresh := by
      rcases loop_eq_nil_or_isCycle walked with ⟨-, stops⟩ | isCycle
      · exact stops
      · exact absurd open_ isCycle.1
    have path := (walked.follows.acc fun stop isStop => visited stop (stops stop isStop)).1
    have later := ih (fun item notFresh => by
      by_cases onPath : item ∈ (walk parent? fresh start).1
      · exact path item onPath
      · exact visited item fun isFresh =>
          notFresh (List.mem_filter.mpr ⟨isFresh, by simpa using onPath⟩)) none.2
    intro item member
    rcases List.mem_cons.mp member with rfl | member
    · exact walked.start_visited.elim (path _) (visited _)
    · exact later item member

theorem child_mem {items : List α} (closed : ∀ item, item ∉ items → parent? item = none)
    {parent child : α} (isParent : IsParent parent? parent child) : child ∈ items := by
  refine Decidable.byContradiction fun outside => ?_
  rw [IsParent, closed child outside] at isParent
  cases isParent

theorem acc_of_closed {items : List α} (closed : ∀ item, item ∉ items → parent? item = none)
    (none : loops parent? items items = []) (item : α) : Acc (IsParent parent?) item := by
  have outside : ∀ item, item ∉ items → Acc (IsParent parent?) item := fun item notItem =>
    Acc.intro item fun parent isParent => absurd (child_mem closed isParent) notItem
  by_cases member : item ∈ items
  · exact acc_of_loops_eq_nil outside none item member
  · exact outside item member

theorem loops_eq_nil_iff {items : List α} (closed : ∀ item, item ∉ items → parent? item = none) :
    loops parent? items items = [] ↔
      ∀ item, ¬ Relation.TransGen (IsParent parent?) item item := by
  constructor
  · exact fun none item => not_transGen_of_acc (acc_of_closed closed none item)
  · intro acyclic
    refine List.eq_nil_iff_forall_not_mem.mpr fun cycle member => ?_
    have isCycle := (isCycle_of_mem_loops member).1
    obtain ⟨item, inside⟩ := List.exists_mem_of_ne_nil cycle isCycle.1
    exact acyclic item (isCycle.transGen item inside)

theorem fromLeast_eq_nil {cycle : List (α × String)} (none : fromLeast cycle = []) : cycle = [] := by
  unfold fromLeast at none
  split at none
  · rename_i noLeast
    by_cases empty : cycle = []
    · exact empty
    · have least : (cycle.minOn? (·.2)).isSome := List.isSome_minOn?_iff.mpr empty
      rw [noLeast] at least
      nomatch least
  · rename_i least _
    rw [List.append_eq_nil_iff] at none
    rw [← List.takeWhile_append_dropWhile (p := (·.1 ≠ least.1)) (l := cycle), none.1, none.2]
    rfl

theorem mem_of_mem_fromLeast {cycle : List (α × String)} {named : α × String}
    (member : named ∈ fromLeast cycle) : named ∈ cycle := by
  unfold fromLeast at member
  split at member
  · nomatch member
  · rcases List.mem_append.mp member with before | after
    · exact (List.dropWhile_sublist _).mem before
    · exact (List.takeWhile_sublist _).mem after

end Inheritance

end WebIdl
