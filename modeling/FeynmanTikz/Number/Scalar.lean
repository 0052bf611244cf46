/-
Scalars: whole numbers that stay whole until arithmetic meets a number of type `R`.

A coordinate given as `0` is kept apart from `0.0`: it is written without a point, its
negation is again `0`, and sums and products of whole numbers are exact.  A whole number
becomes a number of type `R` when it meets one, or when it is divided.

* `Scalar R` and its reading, order and written form,
* `ArithmeticFault`: the ways in which arithmetic on scalars can fail,
* `Scalar.add`, `sub`, `mul`, `div`: the four operations,
* `Scalar.floorDiv` and `Scalar.truncate`: how often one number goes into another, and the
  whole number in a number.

Design notes.
* Only two things fail in the four operations: a whole number too large for `R`, and a zero
  divisor.  Numbers of type `R` themselves saturate.
-/
import FeynmanTikz.Number.Decimal

namespace FeynmanTikz

/-- A whole number of any size, or a number of type `R`. -/
inductive Scalar (R : Type) where
  | int (n : Int)
  | real (x : R)
deriving Inhabited

/-- Why arithmetic on scalars has no answer. -/
inductive ArithmeticFault where
  /-- A whole number, or the quotient of two, is too large. -/
  | overflow
  | divisionByZero
  /-- The function has no value there: a sine at infinity, or a count that is undefined. -/
  | outsideDomain
deriving DecidableEq, Repr

namespace Scalar

variable {R : Type} [Arithmetic R]

def reading : Scalar R → Reading
  | .int n => .ofInt n
  | .real x => Arithmetic.reading x

/-- The written form: digits of a whole number, or the text of the number. -/
def text : Scalar R → String
  | .int n => toString n
  | .real x => Arithmetic.text x

def lt (a b : Scalar R) : Bool := a.reading.lt b.reading

def le (a b : Scalar R) : Bool := a.reading.le b.reading

/-- The later one only if it is strictly larger. -/
def max (a b : Scalar R) : Scalar R := if a.lt b then b else a

/-- The later one only if it is strictly smaller. -/
def min (a b : Scalar R) : Scalar R := if b.lt a then b else a

def abs : Scalar R → Scalar R
  | .int n => .int n.natAbs
  | .real x => .real (Arithmetic.abs x)

/-- The same value as a number of type `R`. -/
def toReal : Scalar R → Except ArithmeticFault R
  | .int n =>
    let x := Arithmetic.ofInt n
    if Arithmetic.isFinite x then .ok x else .error .overflow
  | .real x => .ok x

/-- Exact on whole numbers, otherwise an operation of `R`. -/
def combine (onInt : Int → Int → Int) (onReal : R → R → R) :
    Scalar R → Scalar R → Except ArithmeticFault (Scalar R)
  | .int a, .int b => .ok (.int (onInt a b))
  | .real a, .real b => .ok (.real (onReal a b))
  | a, b => do
    let x ← a.toReal
    let y ← b.toReal
    .ok (.real (onReal x y))

def add (a b : Scalar R) := combine (· + ·) (· + ·) a b

def sub (a b : Scalar R) := combine (· - ·) (· - ·) a b

def mul (a b : Scalar R) := combine (· * ·) (· * ·) a b

def neg : Scalar R → Scalar R
  | .int n => .int (-n)
  | .real x => .real (-x)

/-- The quotient of two whole numbers, rounded once.  Like every quotient it is negative if
just one of the two is, and a zero among the two counts as positive. -/
def quotient (m n : Int) : R :=
  Arithmetic.ofReading (.finite (decide (m < 0) != decide (n < 0)) (m / n))

/-- Division leaves the whole numbers.  Two whole numbers are divided exactly and rounded
once; otherwise both are made numbers of type `R` first, and only then is the divisor looked
at. -/
def div (a b : Scalar R) : Except ArithmeticFault (Scalar R) :=
  match a, b with
  | .int m, .int n =>
    if n = 0 then .error .divisionByZero
    else
      let q : R := quotient m n
      if Arithmetic.isFinite q then .ok (.real q) else .error .overflow
  | a, b => do
    let x ← a.toReal
    let y ← b.toReal
    if (Arithmetic.reading y).isZero then .error .divisionByZero else .ok (.real (x / y))

/-- How often `b` goes into `x`. -/
def floorDiv (x : R) (b : Scalar R) : Except ArithmeticFault R := do
  let y ← b.toReal
  if (Arithmetic.reading y).isZero then .error .divisionByZero
  else .ok (Arithmetic.floorDiv x y)

/-- The whole number that is left of a number when its fraction is cut off. -/
def truncate (x : R) : Except ArithmeticFault Int :=
  match Arithmetic.reading x with
  | .undefined => .error .outsideDomain
  | .infinite _ => .error .overflow
  | .finite _ q => .ok (if q < 0 then q.ceil else q.floor)

/-- One more. -/
def succ : Scalar R → Scalar R
  | .int n => .int (n + 1)
  | .real x => .real (x + Arithmetic.ofInt 1)

/-- Equal as numbers. -/
def same : Scalar R → Scalar R → Bool
  | .int a, .int b => a == b
  | a, b => a.reading.same b.reading

/-- Whole numbers are compared without their readings, which comes to the same. -/
theorem same_eq (a b : Scalar R) : a.same b = a.reading.same b.reading := by
  cases a with
  | real x => rfl
  | int m =>
    cases b with
    | real y => rfl
    | int n =>
      have hmn : (m : Rat) ≤ n ∧ (n : Rat) ≤ m ↔ m = n := by
        rw [Rat.intCast_le_intCast, Rat.intCast_le_intCast]
        omega
      rw [Bool.eq_iff_iff]
      show (m == n) = true ↔ (decide ((m : Rat) ≤ n) && decide ((n : Rat) ≤ m)) = true
      rw [Bool.and_eq_true, decide_eq_true_iff, decide_eq_true_iff, hmn, beq_iff_eq]

end Scalar

end FeynmanTikz
