/-!
# Sorting by a comparison that may fail

Some values are in no order, and then the first comparison of two of them is how the sorting fails.
So it matters which values are compared, and when: `runs` takes a list apart into runs, each of them
as far as the values ascend or descend, a short one filled up by putting further values into their
places; `sort` merges the runs. Values of which none is less than the other stay as they stand.
-/

namespace Curly.Sorting

variable {ε α : Type}

/-! ## Runs -/

/-- Splits a list where it stops to descend, or to ascend, from `last` on. -/
def splitRun (less : α → α → Except ε Bool) (descending : Bool) (last : α) :
    List α → Except ε (List α × List α)
  | [] => .ok ([], [])
  | a :: rest => do
    if (← less a last) = descending then
      let (run, rest) ← splitRun less descending a rest
      return (a :: run, rest)
    else return ([], a :: rest)

/-- The run that a list begins with, ascending, and the rest of the list. -/
def firstRun (less : α → α → Except ε Bool) : List α → Except ε (List α × List α)
  | a :: b :: rest => do
    let descending ← less b a
    let (run, rest) ← splitRun less descending b rest
    let run := a :: b :: run
    return (if descending then run.reverse else run, rest)
  | run => .ok (run, [])

/-- Puts a value into its place in a run, which it finds by halving the run; it comes after the
values that are not greater. -/
def place (less : α → α → Except ε Bool) (a : α) (run : List α) : Except ε (List α) :=
  match h : run.drop (run.length / 2) with
  | [] => .ok [a]
  | b :: back => do
    let front := run.take (run.length / 2)
    have := congrArg List.length h
    if ← less a b then return (← place less a front) ++ b :: back
    else return front ++ b :: (← place less a back)
  termination_by run.length
  decreasing_by all_goals simp only [List.length_drop, List.length_cons, List.length_take] at *; omega

/-- The least length of a run, except the last one, in a list of some length: the length, halved until
it is below 64 and then rounded up. A list of less than 64 values is one run. -/
def leastLength (length : Nat) : Nat :=
  let parts := Nat.pow 2 (length.log2 - 5)
  (length + parts - 1) / parts

/-- The runs of a list that has at most as many values as steps are given. -/
def runs (less : α → α → Except ε Bool) (least : Nat) : Nat → List α → Except ε (List (List α))
  | 0, _ | _, [] => .ok []
  | fuel + 1, as => do
    let (run, rest) ← firstRun less as
    let missing := least - run.length
    let run ← (rest.take missing).foldlM (fun run a => place less a run) run
    return run :: (← runs less least fuel (rest.drop missing))

/-! ## Merging -/

/-- Merges two runs. -/
def merge (less : α → α → Except ε Bool) : List α → List α → Except ε (List α)
  | [], bs => .ok bs
  | as, [] => .ok as
  | a :: as, b :: bs => do
    if ← less b a then return b :: (← merge less (a :: as) bs)
    else return a :: (← merge less as (b :: bs))
  termination_by as bs => as.length + bs.length

/-- The values of a list in order, or the failure of the first comparison that fails. -/
def sort (less : α → α → Except ε Bool) (as : List α) : Except ε (List α) := do
  (← runs less (leastLength as.length) as.length as).foldlM (merge less) []

end Curly.Sorting
