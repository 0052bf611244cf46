/-
What a library of arrays computes.

Curves are sampled, and waves are laid along them, by a library that works on whole arrays.  In which order it
adds, and how it rounds a power, a length or a sine, is its own affair, so these are operations of a class.

* `Arrays R`: the operations,
* `Arrays.standard`: one way to carry them out,
* `pairwiseSum`: sums of many numbers, in halves.
-/
import FeynmanTikz.Number.Double
import FeynmanTikz.Value.Broadcast

namespace FeynmanTikz

/-- Operations on arrays of numbers. -/
class Arrays (R : Type) [Arithmetic R] where
  /-- The block a value describes. -/
  ofValue : Value R → Except (Fault R) (Block R)
  /-- The difference of two values that are numbers throughout. -/
  difference : Value R → Value R → Except (Fault R) (Block R)
  /-- What a value puts into the cells of a shape. -/
  filling : List Nat → Value R → Except (Fault R) (List R)
  /-- Two blocks cell by cell, if their shapes fit. -/
  zip? : (R → R → R) → Block R → Block R → Option (Block R)
  /-- The product of two blocks of matrices, if their shapes fit. -/
  product? : Block R → Block R → Option (Block R)
  /-- The sum of some numbers, in any order. -/
  total : List R → R
  /-- The third power. -/
  cube : R → R
  /-- The length of a vector. -/
  hypot : R → R → R
  sin : R → R
  cos : R → R

/-- What fits together, or the fault of sizes that do not. -/
def fitting {R α : Type} : Option α → Except (Fault R) α
  | some a => .ok a
  | none => .error (.refused .wrongCount)

section

variable {R : Type} [Arithmetic R]

/-- The difference of two values that are numbers throughout. -/
def Block.difference (a b : Value R) : Except (Fault R) (Block R) := do
  let la ← a.expectLayout
  let lb ← b.expectLayout
  let a ← Block.ofNumbers la
  let b ← Block.ofNumbers lb
  fitting (Block.zip? (· - ·) a b)

/-- The cells of a value that has been stretched to a shape. -/
def Block.filling (shape : List Nat) (v : Value R) : Except (Fault R) (List R) := do
  let b ← fitting ((← Block.ofValue v).stretched? shape)
  return b.cells

/-- The sum of some numbers, from the left. -/
def leftSum (start : R) (xs : List R) : R := xs.foldl (· + ·) start

/-- Numbers that are added in lanes. -/
def laneCount : Nat := 8

/-- The sums of every eighth number, which are added last, together with what is left over. -/
def laneSum (xs : List R) : R :=
  let whole := xs.length / laneCount
  match pieces laneCount whole xs with
  | [] => leftSum (Arithmetic.ofInt 0) xs
  | row :: rows =>
    match rows.foldl (List.zipWith (· + ·)) row with
    | [a, b, c, d, e, f, g, h] =>
      leftSum (((a + b) + (c + d)) + ((e + f) + (g + h))) (xs.drop (laneCount * whole))
    | _ => leftSum (Arithmetic.ofInt 0) xs

/-- The most numbers that are added without cutting them into halves. -/
def longestRun : Nat := 128

/-- The sum of some numbers; many of them are cut into halves, at a multiple of the number of lanes. -/
def pairwiseSum (xs : List R) : R :=
  let half := xs.length / 2 - xs.length / 2 % laneCount
  if _h : xs.length ≤ longestRun then laneSum xs
  else pairwiseSum (xs.take half) + pairwiseSum (xs.drop half)
termination_by xs.length
decreasing_by
  all_goals
    simp only [longestRun, List.length_take, List.length_drop, laneCount] at *
    omega

/-- The third power, rounded once. -/
def cubed (x : R) : R :=
  match Arithmetic.reading x with
  | .finite n q => Arithmetic.ofReading (.finite n (q * q * q))
  | _ => x

end

/-- The operations on arrays, carried out with those on numbers. -/
@[reducible]
def Arrays.standard (R : Type) [Arithmetic R] : Arrays R where
  ofValue := Block.ofValue
  difference := Block.difference
  filling := Block.filling
  zip? := Block.zip?
  product? := Block.product?
  total := pairwiseSum
  cube := cubed
  hypot := Arithmetic.hypot
  sin := Arithmetic.sin
  cos := Arithmetic.cos

instance : Arrays Float := .standard Float

end FeynmanTikz
