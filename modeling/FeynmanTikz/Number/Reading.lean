/-
What a number stands for, and the operations a number type must offer.

Everything in this library is written over a type `R` of numbers that is only known
through the class `Arithmetic R`.  Diagrams are drawn with binary64 numbers; statements
about geometry are made over the rationals, where the same definitions apply.

* `Reading` is the exact rational a number stands for, or one of the two kinds of
  number that stand for none (an infinity, an undefined result),
* `Reading.lt` and `Reading.le` are the order of numbers: exact, and false whenever an
  undefined number takes part,
* `Arithmetic R` lists the operations; `Arithmetic.reading` and `Arithmetic.ofReading` tie
  them to `Reading`.

Design notes.
* A zero has a sign.  It never shows in a comparison, but it is written (`-0.00`), so
  `Reading.finite` carries the sign beside the value.
* The order goes through the rationals on purpose: whole numbers of any size and
  numbers of type `R` are then compared without rounding either.
-/

namespace FeynmanTikz

/-- What a number stands for: nothing, an infinity, or a rational whose sign is kept
also at zero. -/
inductive Reading where
  | undefined
  | infinite (negative : Bool)
  | finite (negative : Bool) (value : Rat)
deriving DecidableEq, Inhabited

namespace Reading

/-- The reading of a whole number; zero is positive. -/
def ofInt (n : Int) : Reading := .finite (n < 0) n

/-- The reading of a rational; zero is positive. -/
def ofRat (q : Rat) : Reading := .finite (q < 0) q

def isFinite : Reading → Bool
  | .finite _ _ => true
  | _ => false

/-- Both zeros are zero. -/
def isZero : Reading → Bool
  | .finite _ v => v == 0
  | _ => false

/-- The sign as it is written; an undefined number has none. -/
def isNegative : Reading → Bool
  | .undefined => false
  | .infinite n => n
  | .finite n _ => n

/-- Strictly less; false if either side is undefined. -/
def lt : Reading → Reading → Bool
  | .finite _ a, .finite _ b => a < b
  | .infinite n, .finite _ _ => n
  | .finite _ _, .infinite n => !n
  | .infinite a, .infinite b => a && !b
  | _, _ => false

/-- Less or equal; false if either side is undefined. -/
def le : Reading → Reading → Bool
  | .finite _ a, .finite _ b => a ≤ b
  | .infinite n, .finite _ _ => n
  | .finite _ _, .infinite n => !n
  | .infinite a, .infinite b => a || !b
  | _, _ => false

/-- Equal as numbers: the two zeros are, and an undefined number equals nothing. -/
def same (a b : Reading) : Bool := a.le b && b.le a

/-- The distance from zero. -/
def abs : Reading → Reading
  | .undefined => .undefined
  | .infinite _ => .infinite false
  | .finite _ v => .finite false v.abs

/-- The quotient rounded down.  An infinite divisor goes zero times into anything of its own
sign. -/
def floorQuotient : Reading → Reading → Reading
  | .finite _ u, .finite _ v => .ofRat (u / v).floor
  | .finite _ u, .infinite n => .ofInt (if u ≠ 0 ∧ (n ↔ 0 < u) then -1 else 0)
  | _, _ => .undefined

@[simp] theorem lt_undefined_left (r : Reading) : lt .undefined r = false := rfl

@[simp] theorem lt_undefined_right (r : Reading) : lt r .undefined = false := by
  cases r <;> rfl

@[simp] theorem le_undefined_left (r : Reading) : le .undefined r = false := rfl

@[simp] theorem le_undefined_right (r : Reading) : le r .undefined = false := by
  cases r <;> rfl

@[simp] theorem lt_finite (m n : Bool) (a b : Rat) :
    lt (.finite m a) (.finite n b) = decide (a < b) := rfl

@[simp] theorem le_finite (m n : Bool) (a b : Rat) :
    le (.finite m a) (.finite n b) = decide (a ≤ b) := rfl

end Reading

/-- The numbers a diagram is drawn with.  The four operations and the functions below
never fail; what cannot be computed is an undefined number or an infinity. -/
class Arithmetic (R : Type) extends Add R, Sub R, Mul R, Div R, Neg R where
  /-- The number nearest to what a reading stands for.  A zero keeps its sign. -/
  ofReading : Reading → R
  /-- The number nearest to `m · 10 ^ e`. -/
  ofDecimal (m : Nat) (e : Int) : R
  /-- What a number stands for. -/
  reading : R → Reading
  /-- The written form from which the number can be read back. -/
  text : R → String
  /-- How often one number goes into another: `floorDiv x y` is the quotient rounded down. -/
  floorDiv : R → R → R
  /-- The length of a vector. -/
  hypot : R → R → R
  sin : R → R
  cos : R → R
  /-- The angle of the vector `(x, y)`, with `y` given first. -/
  atan2 : R → R → R
  pi : R

namespace Arithmetic

variable {R : Type} [Arithmetic R]

/-- The number nearest to a rational. -/
def ofRat (q : Rat) : R := ofReading (.ofRat q)

/-- The number nearest to a whole number. -/
def ofInt (n : Int) : R := ofRat n

/-- The number without its sign. -/
def abs (x : R) : R := if (reading x).isNegative then -x else x

/-- `x < y`, decided on what the two stand for. -/
def lt (x y : R) : Bool := (reading x).lt (reading y)

/-- `x ≤ y`, decided on what the two stand for. -/
def le (x y : R) : Bool := (reading x).le (reading y)

def isFinite (x : R) : Bool := (reading x).isFinite

end Arithmetic

end FeynmanTikz
