import FormKernel.Fault

/-! # Sorting with a comparison that may fail

A stable sort by binary insertion.  A leading run that is already in order is kept, one in
strictly descending order is turned around; every further item is placed by bisection. -/

namespace FormKernel

variable {α : Type}

/-- The length of the leading run: each item, compared with the one before it, answers as the
    second item does. -/
def runLength (before : α → α → Outcome Bool) (descending : Bool) (last : α) :
    List α → Outcome Nat
  | [] => .ok 0
  | x :: xs => do
    if (← before x last) == descending then return (← runLength before descending x xs) + 1
    else return 0

/-- The place of an item among sorted ones: after all that do not come after it. -/
def bisect (before : α → α → Outcome Bool) (x : α) (sorted : List α) (lo hi : Nat) :
    Outcome Nat :=
  if _h : lo < hi then
    let mid := lo + (hi - lo) / 2
    match sorted[mid]? with
    | none => misfit .outOfRange
    | some y => do
      if ← before x y then bisect before x sorted lo mid
      else bisect before x sorted (mid + 1) hi
  else .ok lo
termination_by hi - lo

/-- Sorts a list; `before` says whether one item has to come before another. -/
def sortWith (before : α → α → Outcome Bool) : List α → Outcome (List α)
  | [] => .ok []
  | [x] => .ok [x]
  | x :: y :: rest => do
    let descending ← before y x
    let run := 2 + (← runLength before descending y rest)
    let all := x :: y :: rest
    let start := if descending then (all.take run).reverse else all.take run
    (all.drop run).foldlM (fun sorted z => do
      let place ← bisect before z sorted 0 sorted.length
      return sorted.take place ++ [z] ++ sorted.drop place) start

end FormKernel
