/-
The order of values, and sorting by it.

* `Value.less?`: whether one value comes before another, if the two can be compared,
* `sorted?`: a list in the order of its keys; nothing if two keys that meet cannot be compared,
* `sortedIfPossible`: the same, or else the list as it was.

Design notes.
* Items that are equal are skipped before two tuples are compared, so that what has no order,
  such as nothing at all, does not stand in the way where it is equal.
* An undefined number is neither before nor after anything.  Where it ends up depends on which
  keys meet, so this is fixed: first the run at the start of the list is taken, turned round if
  it falls, and then each entry is put in its place by halving.
-/
import FeynmanTikz.Value

namespace FeynmanTikz

namespace Value

variable {R : Type} [Arithmetic R]

mutual

/-- Whether a value comes before another; nothing if they cannot be compared. -/
def less? : Value R → Value R → Option Bool
  | .text t, .text u => some (t < u)
  | .list items, .list others => itemsLess? items others
  | .tuple items, .tuple others => itemsLess? items others
  | a, b => do return (← a.asNumber?).lt (← b.asNumber?)

/-- The first items that differ decide; a proper beginning comes first. -/
def itemsLess? : List (Value R) → List (Value R) → Option Bool
  | [], others => some !others.isEmpty
  | _ :: _, [] => some false
  | v :: vs, w :: ws => if v.same w then itemsLess? vs ws else v.less? w

end

end Value

section

variable {R β : Type} [Arithmetic R]

/-- The rest of a run, added to what there is of it in reverse: entries that fall from one to the
next, or entries none of which does.  The second part is what follows the run. -/
def runOn? (key : β → Value R) (falling : Bool) (last : β) (run : List β) :
    List β → Option (List β × List β)
  | [] => some (run, [])
  | x :: rest => do
    if (← (key x).less? (key last)) == falling then runOn? key falling x (x :: run) rest
    else return (run, x :: rest)

/-- The run at the start of a list in rising order, and what follows it. -/
def firstRun? (key : β → Value R) : List β → Option (List β × List β)
  | x :: y :: rest => do
    let falling ← (key y).less? (key x)
    let (run, rest) ← runOn? key falling y [y, x] rest
    return (if falling then run else run.reverse, rest)
  | xs => some (xs, [])

/-- Inserts an entry into a sorted list, after those it does not come before.  Its place is found
by halving. -/
def insertSorted? (key : β → Value R) (x : β) (sorted : List β) : Option (List β) :=
  match _h : sorted.drop (sorted.length / 2) with
  | [] => some (sorted.take (sorted.length / 2) ++ [x])
  | y :: above => do
    if ← (key x).less? (key y) then
      return (← insertSorted? key x (sorted.take (sorted.length / 2))) ++ y :: above
    else return sorted.take (sorted.length / 2) ++ y :: (← insertSorted? key x above)
termination_by sorted.length
decreasing_by
  all_goals
    have hl := congrArg List.length _h
    simp only [List.length_drop, List.length_cons] at hl
    try simp only [List.length_take]
    omega

/-- A list in the order of its keys. -/
def sorted? (key : β → Value R) (xs : List β) : Option (List β) := do
  let (run, rest) ← firstRun? key xs
  rest.foldlM (fun sorted x => insertSorted? key x sorted) run

/-- Sorted by `key`, or as given if some keys cannot be compared. -/
def sortedIfPossible (key : β → Value R) (xs : List β) : List β := (sorted? key xs).getD xs

end

end FeynmanTikz
