import Mathlib.Data.List.Nodup
import WebIdl.Proofs.Ancestry

namespace WebIdl

namespace Inheritance

section
variable {α : Type}

def ancestor? (parent? : α → Option α) : Nat → α → Option α
  | 0, item => some item
  | generations + 1, item => (parent? item).bind (ancestor? parent? generations)

def lineage (parent? : α → Option α) : Nat → α → List α
  | 0, _ => []
  | count + 1, item => item :: (parent? item).elim [] (lineage parent? count)

/-- The item is its own ancestor after so many generations, and not sooner. -/
structure ComesRound (parent? : α → Option α) (generations : Nat) (item : α) : Prop where
  positive : 0 < generations
  returns : ancestor? parent? generations item = some item
  first : ∀ sooner, 0 < sooner → sooner < generations → ancestor? parent? sooner item ≠ some item

variable {parent? : α → Option α}

theorem ComesRound.unique {generations generations' : Nat} {item : α}
    (round : ComesRound parent? generations item) (round' : ComesRound parent? generations' item) :
    generations = generations' := by
  rcases Nat.lt_trichotomy generations generations' with sooner | same | later
  · exact absurd round.returns (round'.first generations round.positive sooner)
  · exact same
  · exact absurd round'.returns (round.first generations' round'.positive later)

theorem follows_lineage {generations : Nat} {item last : α}
    (leads : ancestor? parent? generations item = some last) :
    Follows parent? (some item) (lineage parent? generations item) (some last) := by
  induction generations generalizing item with
  | zero => exact leads
  | succ generations ih =>
    obtain ⟨parent, isParent, leads⟩ := Option.bind_eq_some_iff.mp leads
    simp only [lineage, isParent, Option.elim_some]
    exact ⟨rfl, isParent ▸ ih leads⟩

theorem Follows.exists_next {next : Option α} {path : List α} {stop : α}
    (follows : Follows parent? next path (some stop)) : ∃ first, next = some first := by
  cases path with
  | nil => exact ⟨stop, follows⟩
  | cons first rest => exact ⟨first, follows.1⟩

theorem Follows.lineage_eq {first stop : α} {path : List α}
    (follows : Follows parent? (some first) path (some stop)) :
    lineage parent? path.length first = path
      ∧ ancestor? parent? path.length first = some stop := by
  induction path generalizing first with
  | nil => exact ⟨rfl, follows⟩
  | cons head rest ih =>
    obtain ⟨same, follows⟩ := follows
    obtain rfl := Option.some.inj same
    obtain ⟨parent, isParent⟩ := follows.exists_next
    obtain ⟨line, leads⟩ := ih (isParent ▸ follows)
    simp only [List.length_cons, lineage, ancestor?, isParent, Option.elim_some, Option.bind_some]
    exact ⟨congrArg _ line, leads⟩

theorem Follows.ancestor?_eq {first stop : α} {path : List α}
    (follows : Follows parent? (some first) path (some stop)) {generations : Nat}
    (inside : generations < path.length) :
    ancestor? parent? generations first = path[generations]? := by
  induction path generalizing first generations with
  | nil => nomatch inside
  | cons head rest ih =>
    obtain ⟨same, follows⟩ := follows
    obtain rfl := Option.some.inj same
    cases generations with
    | zero => rfl
    | succ generations =>
      obtain ⟨parent, isParent⟩ := follows.exists_next
      rw [ancestor?, isParent, List.getElem?_cons_succ]
      exact ih (isParent ▸ follows) (Nat.lt_of_succ_lt_succ inside)

theorem IsCycle.comesRound {first : α} {rest : List α} (isCycle : IsCycle parent? (first :: rest))
    (distinct : (first :: rest).Nodup) :
    ComesRound parent? (first :: rest).length first
      ∧ lineage parent? (first :: rest).length first = first :: rest := by
  have follows : Follows parent? (some first) (first :: rest) (some first) := isCycle.2
  obtain ⟨line, returns⟩ := follows.lineage_eq
  refine ⟨⟨Nat.succ_pos _, returns, fun sooner positive inside again => ?_⟩, line⟩
  -- A sooner return would be a second place of the first item.
  rw [follows.ancestor?_eq inside] at again
  have atFirst : (first :: rest)[0]? = some first := rfl
  have same := (List.getElem?_inj inside distinct).mp (again.trans atFirst.symm)
  exact Nat.ne_of_gt positive same

theorem isCycle_lineage {generations : Nat} {item : α}
    (round : ComesRound parent? generations item) :
    IsCycle parent? (lineage parent? generations item)
      ∧ item ∈ lineage parent? generations item := by
  have follows := follows_lineage round.returns
  cases generations with
  | zero => exact absurd round.positive (Nat.lt_irrefl 0)
  | succ count => exact ⟨⟨List.cons_ne_nil _ _, follows⟩, List.mem_cons_self⟩

theorem Follows.append_iff {next stop : Option α} {path more : List α} :
    Follows parent? next (path ++ more) stop
      ↔ ∃ between, Follows parent? next path between ∧ Follows parent? between more stop := by
  induction path generalizing next with
  | nil => simp [Follows]
  | cons head rest ih => simp [Follows, ih, and_assoc]

theorem Follows.head?_eq {next stop : Option α} {path : List α}
    (follows : Follows parent? next path stop) (nonempty : path ≠ []) : path.head? = next := by
  cases path with
  | nil => exact absurd rfl nonempty
  | cons first rest => exact follows.1.symm

theorem IsCycle.swap {before later : List α} (isCycle : IsCycle parent? (before ++ later)) :
    IsCycle parent? (later ++ before) := by
  obtain ⟨nonempty, follows⟩ := isCycle
  obtain ⟨between, first, second⟩ := Follows.append_iff.mp follows
  have nonempty' : later ++ before ≠ [] := by
    simpa [and_comm] using nonempty
  have follows' := Follows.append_iff.mpr ⟨_, second, first⟩
  exact ⟨nonempty', (follows'.head?_eq nonempty').symm ▸ follows'⟩

theorem Follows.parent_mem {next stop : Option α} {path : List α}
    (follows : Follows parent? next path stop) {item parent : α} (member : item ∈ path)
    (isParent : IsParent parent? parent item) : parent ∈ path ∨ stop = some parent := by
  induction path generalizing next with
  | nil => nomatch member
  | cons head rest ih =>
    obtain ⟨-, follows⟩ := follows
    rcases List.mem_cons.mp member with rfl | later
    · rw [IsParent] at isParent
      rw [isParent] at follows
      cases rest with
      | nil => exact .inr follows.symm
      | cons second rest =>
        exact .inl (List.mem_cons_of_mem _ (Option.some.inj follows.1 ▸ List.mem_cons_self))
    · exact (ih follows later).imp_left (List.mem_cons_of_mem _)

theorem IsCycle.mem_iff {cycle : List α} (isCycle : IsCycle parent? cycle) {item : α}
    (member : item ∈ cycle) {other : α} :
    other ∈ cycle ↔ Relation.TransGen (IsParent parent?) other item := by
  obtain ⟨nonempty, follows⟩ := isCycle
  obtain ⟨first, rest, rfl⟩ := List.exists_cons_of_ne_nil nonempty
  have follows : Follows parent? (some first) (first :: rest) (some first) := follows
  constructor
  · intro other
    exact Relation.TransGen.trans_right (follows.transGen other).1 (follows.transGen member).2
  · intro above
    have closed {item parent : α} (isParent : IsParent parent? parent item)
        (member : item ∈ first :: rest) : parent ∈ first :: rest := by
      rcases follows.parent_mem member isParent with inside | same
      · exact inside
      · exact Option.some.inj same ▸ List.mem_cons_self
    induction above using Relation.TransGen.head_induction_on with
    | single isParent => exact closed isParent member
    | head isParent _ inside => exact closed isParent inside

/-- Parents being unique, an item that is its own ancestor is met again from any ancestor. -/
theorem transGen_back {item : α} (around : Relation.TransGen (IsParent parent?) item item)
    {other : α} (above : Relation.TransGen (IsParent parent?) other item) :
    Relation.TransGen (IsParent parent?) item other := by
  have next {parent child : α} (isParent : IsParent parent? parent child)
      (below : Relation.TransGen (IsParent parent?) item child) :
      Relation.TransGen (IsParent parent?) item parent := by
    obtain ⟨parent', reaches, isParent'⟩ := Relation.TransGen.tail'_iff.mp below
    rw [IsParent, isParent, Option.some.injEq] at isParent'
    rw [← isParent'] at reaches
    rcases Relation.reflTransGen_iff_eq_or_transGen.mp reaches with same | reaches
    · exact same ▸ around
    · exact reaches
  induction above using Relation.TransGen.head_induction_on with
  | single isParent => exact next isParent around
  | head isParent _ reached => exact next isParent reached

/-- With every item that is no longer fresh, its ancestors have been visited. -/
def Explored (parent? : α → Option α) (fresh : List α) : Prop :=
  ∀ child, child ∉ fresh → ∀ parent, IsParent parent? parent child → parent ∉ fresh

theorem Explored.not_mem_of_transGen {fresh : List α} (explored : Explored parent? fresh)
    {child ancestor : α} (visited : child ∉ fresh)
    (above : Relation.TransGen (IsParent parent?) ancestor child) : ancestor ∉ fresh := by
  induction above using Relation.TransGen.head_induction_on with
  | single isParent => exact explored child visited _ isParent
  | head isParent _ visited => exact explored _ visited _ isParent

end

section
variable {α : Type} [DecidableEq α] {parent? : α → Option α}

theorem nodup_walk (fresh : List α) (start : α) : (walk parent? fresh start).1.Nodup := by
  fun_induction walk parent? fresh start with
  | case1 => exact List.nodup_singleton _
  | case2 fresh start _ parent _ path stop walked ih =>
    have walk : Walked parent? (without fresh start) parent (path, stop) :=
      walked ▸ walked_walk (without fresh start) parent
    rw [walked] at ih
    exact List.nodup_cons.mpr ⟨fun member => (mem_without.mp (walk.inside start member)).2 rfl, ih⟩
  | case3 => exact List.nodup_nil

theorem nodup_of_mem_loops {fresh starts cycle : List α}
    (member : cycle ∈ loops parent? fresh starts) : cycle.Nodup := by
  obtain ⟨left, start, -, rfl, -⟩ := exists_walk_of_mem_loops member
  exact (loop_sublist _).nodup (nodup_walk left start)

theorem pairwise_disjoint_loops (fresh starts : List α) :
    (loops parent? fresh starts).Pairwise List.Disjoint := by
  induction starts generalizing fresh with
  | nil => exact .nil
  | cons start starts ih =>
    rw [loops_cons]
    split
    · exact ih _
    · refine List.pairwise_cons.mpr ⟨fun cycle later item onLoop onCycle => ?_, ih _⟩
      have unvisited := (isCycle_of_mem_loops later).2 item onCycle
      have visited := (loop_sublist _).mem onLoop
      exact absurd visited (by simpa using (List.mem_filter.mp unvisited).2)

theorem Explored.after_walk {fresh : List α} (explored : Explored parent? fresh) (start : α) :
    Explored parent? (fresh.filter (· ∉ (walk parent? fresh start).1)) := by
  have walked : Walked parent? fresh start (walk parent? fresh start) := walked_walk fresh start
  have visited {item : α} : item ∉ fresh.filter (· ∉ (walk parent? fresh start).1)
      ↔ item ∉ fresh ∨ item ∈ (walk parent? fresh start).1 := by
    rw [List.mem_filter, decide_eq_true_eq, not_and_or, not_not]
  intro child isVisited parent isParent
  rw [visited] at isVisited ⊢
  rcases isVisited with before | onPath
  · exact .inl (explored child before parent isParent)
  · rcases walked.follows.parent_mem onPath isParent with onPath | isStop
    · exact .inr onPath
    · exact (walked.stops parent isStop).symm

theorem stop_mem_loop {path : List α} {stop : α} (closed : loop (path, some stop) ≠ []) :
    stop ∈ loop (path, some stop) := by
  have isStop : decide ((loop (path, some stop)).head closed ≠ stop) = false :=
    List.head_dropWhile_not (fun item => item ≠ stop) closed
  have same : (loop (path, some stop)).head closed = stop := by simpa using isStop
  exact List.mem_of_mem_head? (by rw [List.head?_eq_some_head closed, same]; rfl)

theorem Walked.exists_cut {fresh path : List α} {start stop : α}
    (walk : Walked parent? fresh start (path, some stop)) (returned : stop ∈ fresh) :
    ∃ place rest, loop (path, some stop) = path.drop place ∧ path.drop place = stop :: rest := by
  have onPath : stop ∈ path := (walk.stops stop rfl).resolve_right fun gone => gone returned
  obtain ⟨rest, begins, -⟩ := walk.follows.dropWhile onPath
  have cut : path.dropWhile (· ≠ stop) = path.drop _ := List.dropWhile_eq_drop_findIdx_not
  exact ⟨_, rest, cut, cut ▸ begins⟩

theorem Walked.loop_eq_nil {fresh path : List α} {start stop : α}
    (walk : Walked parent? fresh start (path, some stop)) (arrived : stop ∉ fresh) :
    loop (path, some stop) = [] := by
  by_contra closed
  exact arrived (walk.inside stop ((loop_sublist _).mem (stop_mem_loop closed)))

theorem mem_loop_walk {fresh : List α} (explored : Explored parent? fresh) {start item : α}
    (onPath : item ∈ (walk parent? fresh start).1)
    (around : Relation.TransGen (IsParent parent?) item item) :
    item ∈ loop (walk parent? fresh start) := by
  have walked : Walked parent? fresh start (walk parent? fresh start) := walked_walk fresh start
  generalize walk parent? fresh start = ended at walked onPath ⊢
  obtain ⟨path, stop⟩ := ended
  -- The item and the end of the walk are ancestors of each other, so neither is left out.
  cases stop with
  | none => exact absurd around (not_transGen_of_acc ((walked.follows.acc nofun).1 item onPath))
  | some stop =>
    have above : Relation.TransGen (IsParent parent?) stop item :=
      (walked.follows.transGen onPath).2
    have below := transGen_back around above
    rcases loop_eq_nil_or_isCycle walked with ⟨-, stops⟩ | isCycle
    · exact absurd (walked.inside item onPath) (explored.not_mem_of_transGen (stops stop rfl) below)
    · exact (isCycle.mem_iff (stop_mem_loop isCycle.1)).mpr below

theorem exists_mem_loops {fresh starts : List α} (explored : Explored parent? fresh) {item : α}
    (isStart : item ∈ starts) (isFresh : item ∈ fresh)
    (around : Relation.TransGen (IsParent parent?) item item) :
    ∃ cycle ∈ loops parent? fresh starts, item ∈ cycle := by
  -- Each walk leaves what is fresh explored. The item's own walk is the last that can miss it.
  induction starts generalizing fresh with
  | nil => nomatch isStart
  | cons start starts ih =>
    rw [loops_cons]
    by_cases onPath : item ∈ (walk parent? fresh start).1
    · have onLoop := mem_loop_walk explored onPath around
      rw [if_neg (List.ne_nil_of_mem onLoop)]
      exact ⟨_, List.mem_append_left _ (List.mem_singleton_self _), onLoop⟩
    · have walked : Walked parent? fresh start (walk parent? fresh start) := walked_walk fresh start
      have later : item ∈ starts := by
        rcases List.mem_cons.mp isStart with rfl | later
        · exact absurd isFresh (walked.start_visited.resolve_left onPath)
        · exact later
      have stillFresh : item ∈ fresh.filter (· ∉ (walk parent? fresh start).1) :=
        List.mem_filter.mpr ⟨isFresh, by simpa using onPath⟩
      obtain ⟨cycle, member, inside⟩ := ih (explored.after_walk start) later stillFresh
      exact ⟨cycle, List.mem_append_right _ member, inside⟩

/-- The cycle, begun at another of its items. -/
def turned (item : α) (cycle : List α) : List α :=
  cycle.dropWhile (· ≠ item) ++ cycle.takeWhile (· ≠ item)

theorem turned_perm (item : α) (cycle : List α) : (turned item cycle).Perm cycle := by
  have whole := List.takeWhile_append_dropWhile (p := (· ≠ item)) (l := cycle)
  exact List.perm_append_comm.trans (.of_eq whole)

theorem IsCycle.exists_turned {cycle : List α} (isCycle : IsCycle parent? cycle) {item : α}
    (member : item ∈ cycle) :
    ∃ rest, turned item cycle = item :: rest ∧ IsCycle parent? (item :: rest) := by
  obtain ⟨rest, dropped, -⟩ := isCycle.2.dropWhile member
  have begins : turned item cycle = item :: (rest ++ cycle.takeWhile (· ≠ item)) := by
    rw [turned, dropped, List.cons_append]
  have whole := List.takeWhile_append_dropWhile (p := (· ≠ item)) (l := cycle)
  rw [← whole] at isCycle
  exact ⟨_, begins, begins ▸ isCycle.swap⟩

theorem IsCycle.comesRound_of_mem {cycle : List α} (isCycle : IsCycle parent? cycle)
    (distinct : cycle.Nodup) {item : α} (member : item ∈ cycle) :
    ComesRound parent? cycle.length item
      ∧ lineage parent? cycle.length item = turned item cycle := by
  obtain ⟨rest, begins, isCycle'⟩ := isCycle.exists_turned member
  have distinct' := (turned_perm item cycle).nodup_iff.mpr distinct
  have length := (turned_perm item cycle).length_eq
  rw [begins] at distinct' length ⊢
  exact length ▸ isCycle'.comesRound distinct'

theorem comesRound_of_mem_loops {fresh starts cycle : List α}
    (isLoop : cycle ∈ loops parent? fresh starts) {item : α} (member : item ∈ cycle) :
    ComesRound parent? cycle.length item
      ∧ lineage parent? cycle.length item = turned item cycle :=
  (isCycle_of_mem_loops isLoop).1.comesRound_of_mem (nodup_of_mem_loops isLoop) member

/-- An item comes round exactly if it is on a cycle that the walks from all items meet. -/
theorem comesRound_iff {items : List α} (closed : ∀ item, item ∉ items → parent? item = none)
    {generations : Nat} {item : α} :
    ComesRound parent? generations item ↔
      ∃ cycle ∈ loops parent? items items, item ∈ cycle ∧ generations = cycle.length := by
  constructor
  · intro round
    obtain ⟨isCycle, onLine⟩ := isCycle_lineage round
    have around := isCycle.transGen item onLine
    have explored : Explored parent? items := fun child outside parent isParent =>
      absurd (child_mem closed isParent) outside
    obtain ⟨parent, -, isParent⟩ := Relation.TransGen.tail'_iff.mp around
    have isItem : item ∈ items := child_mem closed isParent
    obtain ⟨cycle, member, inside⟩ := exists_mem_loops explored isItem isItem around
    exact ⟨cycle, member, inside, round.unique (comesRound_of_mem_loops member inside).1⟩
  · rintro ⟨cycle, member, inside, rfl⟩
    exact (comesRound_of_mem_loops member inside).1

theorem exists_fromLeast_eq {cycle : List α} (nonempty : cycle ≠ []) (name : α → String) :
    ∃ least ∈ cycle, (∀ other ∈ cycle, name least ≤ name other)
      ∧ fromLeast (cycle.map fun item => (item, name item))
        = (turned least cycle).map fun item => (item, name item) := by
  have named : cycle.map (fun item => (item, name item)) ≠ [] := by simpa using nonempty
  have isSome : ((cycle.map fun item => (item, name item)).minOn? (·.2)).isSome :=
    List.isSome_minOn?_iff.mpr named
  obtain ⟨first, isFirst⟩ := Option.isSome_iff_exists.mp isSome
  obtain ⟨least, member, rfl⟩ := List.mem_map.mp (List.minOn?_mem isFirst)
  refine ⟨least, member, fun other inside => ?_, ?_⟩
  · have inside : (other, name other) ∈ cycle.map fun item => (item, name item) :=
      List.mem_map_of_mem inside
    have minimal := List.apply_get_minOn?_le_of_mem (f := (·.2)) inside
    simpa only [isFirst, Option.get_some] using minimal
  · unfold fromLeast
    rw [isFirst]
    simp only [turned, List.map_append, List.dropWhile_map, List.takeWhile_map]
    rfl

end

end Inheritance

end WebIdl
