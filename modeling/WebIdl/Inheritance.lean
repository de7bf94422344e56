import WebIdl.Distinct

namespace WebIdl

namespace Inheritance

variable {α : Type} [DecidableEq α]

/-- Follows parents from `start` through items that are `fresh`. Gives those items, and the item
    that ended the walk by not being fresh, unless a parent was missing. -/
def walk (parent? : α → Option α) (fresh : List α) (start : α) : List α × Option α :=
  if _isFresh : start ∈ fresh then
    match parent? start with
    | none => ([start], none)
    | some parent =>
      let (path, stop) := walk parent? (without fresh start) parent
      (start :: path, stop)
  else
    ([], some start)
termination_by fresh.length
decreasing_by exact length_without_lt _isFresh

/-- The end of a walk, if it came back to an item of its own: the part from there on. -/
def loop : List α × Option α → List α
  | (_, none) => []
  | (path, some stop) => path.dropWhile (· ≠ stop)

def loops (parent? : α → Option α) (fresh : List α) : List α → List (List α)
  | [] => []
  | start :: starts =>
    let walked := walk parent? fresh start
    let others := loops parent? (fresh.filter (· ∉ walked.1)) starts
    match loop walked with
    | [] => others
    | cycle => cycle :: others

def fromLeast (cycle : List (α × String)) : List (α × String) :=
  match cycle.minOn? (·.2) with
  | none => []
  | some least => cycle.dropWhile (·.1 ≠ least.1) ++ cycle.takeWhile (·.1 ≠ least.1)

end Inheritance

end WebIdl
