/-
Arithmetic on values.

Formulas are written over `Computed R`, a value or the fault that kept it from being computed.
On numbers the operations are those of scalars.  The sum of two texts or two sequences joins
them, the product with a whole number repeats them, and nothing else has a sum or a product.

* `Value.add`, `sub`, `mul`, `div`, `neg` and `Value.magnitude`,
* `Computed R` with the same operations, so that formulas read as they do on paper,
* `Value.x` and `Value.y`: the coordinates of a position, as leaves of a formula.

Main facts: `add_number` and its companions.  On numbers a formula is one over scalars.

Design notes.
* A formula is evaluated from left to right, and its first fault is the fault of the whole.  A
  coordinate is only looked at when its turn comes.
-/
import FeynmanTikz.Value.Access

namespace FeynmanTikz

namespace Value

variable {R : Type} [Arithmetic R]

/-- An operation on numbers, which has no meaning on anything else. -/
def numeric (f : Scalar R → Scalar R → Except ArithmeticFault (Scalar R)) (a b : Value R) :
    Except (Fault R) (Value R) := do
  let x ← a.expectNumber
  let y ← b.expectNumber
  return .number (← liftArithmetic (f x y))

/-- The sum of two numbers; two texts or two sequences joined. -/
def add : Value R → Value R → Except (Fault R) (Value R)
  | .text a, .text b => .ok (.text (a ++ b))
  | .list a, .list b => .ok (.list (a ++ b))
  | .tuple a, .tuple b => .ok (.tuple (a ++ b))
  | a, b => numeric Scalar.add a b

def sub (a b : Value R) : Except (Fault R) (Value R) := numeric Scalar.sub a b

def div (a b : Value R) : Except (Fault R) (Value R) := numeric Scalar.div a b

/-- A list `n` times over; not at all if `n` is negative. -/
def cycle {α : Type} (n : Int) : List α → List α
  | [] => []
  | xs => (List.replicate n.toNat xs).flatten

/-- The most times that anything can be repeated, either way. -/
def maxRepeats : Int := 9223372036854775807

/-- A text or a sequence `n` times over. -/
def repeated (v : Value R) (n : Int) : Except (Fault R) (Value R) := do
  let again {α : Type} (xs : List α) : Except (Fault R) (List α) :=
    if maxRepeats < n ∨ n < -maxRepeats - 1 then .error (.arithmetic .overflow)
    else .ok (cycle n xs)
  match v with
  | .text t => return .text (String.ofList (← again t.toList))
  | .list items => return .list (← again items)
  | .tuple items => return .tuple (← again items)
  | _ => .error .wrongType

/-- The product of two numbers; a text or a sequence repeated. -/
def mul (a b : Value R) : Except (Fault R) (Value R) :=
  match a.asNumber?, b.asNumber? with
  | some (.int n), Option.none => b.repeated n
  | Option.none, some (.int n) => a.repeated n
  | _, _ => numeric Scalar.mul a b

def neg (v : Value R) : Except (Fault R) (Value R) := do
  return .number (← v.expectNumber).neg

/-- A number without its sign. -/
def magnitude (v : Value R) : Except (Fault R) (Value R) := do
  return .number (← v.expectNumber).abs

/-- The first value unless the second one is larger. -/
def max (a b : Value R) : Except (Fault R) (Value R) := do
  let x ← a.expectNumber
  let y ← b.expectNumber
  return if x.lt y then b else a

/-- The first value unless the second one is smaller. -/
def min (a b : Value R) : Except (Fault R) (Value R) := do
  let x ← a.expectNumber
  let y ← b.expectNumber
  return if y.lt x then b else a

omit [Arithmetic R] in
theorem numeric_number (f : Scalar R → Scalar R → Except ArithmeticFault (Scalar R))
    (a b : Scalar R) :
    numeric f (.number a) (.number b) = (liftArithmetic (f a b)).map Value.number := by
  show (liftArithmetic (f a b) >>= fun r => pure (Value.number r)) = _
  cases liftArithmetic (R := R) (f a b) <;> rfl

@[simp] theorem add_number (a b : Scalar R) :
    add (.number a) (.number b) = (liftArithmetic (Scalar.add a b)).map Value.number :=
  numeric_number Scalar.add a b

@[simp] theorem sub_number (a b : Scalar R) :
    sub (.number a) (.number b) = (liftArithmetic (Scalar.sub a b)).map Value.number :=
  numeric_number Scalar.sub a b

@[simp] theorem mul_number (a b : Scalar R) :
    mul (.number a) (.number b) = (liftArithmetic (Scalar.mul a b)).map Value.number := by
  cases a <;> exact numeric_number Scalar.mul _ b

@[simp] theorem div_number (a b : Scalar R) :
    div (.number a) (.number b) = (liftArithmetic (Scalar.div a b)).map Value.number :=
  numeric_number Scalar.div a b

@[simp] theorem neg_number (a : Scalar R) : neg (.number a) = .ok (.number a.neg) := rfl

end Value

/-- A value that has been computed, or the reason why there is none. -/
def Computed (R : Type) : Type := Except (Fault R) (Value R)

namespace Computed

variable {R : Type} [Arithmetic R]

/-- A value as the leaf of a formula. -/
def of (v : Value R) : Computed R := .ok v

/-- What a formula comes to. -/
def result (c : Computed R) : Except (Fault R) (Value R) := c

instance : Coe (Value R) (Computed R) := ⟨of⟩

instance : Coe (Scalar R) (Computed R) := ⟨fun x => of (.number x)⟩

/-- Evaluates both operands, the left one first. -/
def both (f : Value R → Value R → Except (Fault R) (Value R)) (a b : Computed R) : Computed R :=
  match a, b with
  | .error e, _ => .error e
  | .ok _, .error e => .error e
  | .ok x, .ok y => f x y

instance : Add (Computed R) := ⟨both Value.add⟩

instance : Sub (Computed R) := ⟨both Value.sub⟩

instance : Mul (Computed R) := ⟨both Value.mul⟩

instance : Div (Computed R) := ⟨both Value.div⟩

instance : Neg (Computed R) := ⟨fun
  | .error e => .error e
  | .ok v => v.neg⟩

/-- A constant of a formula, as a number of type `R`. -/
instance (n : Nat) : OfNat (Computed R) n := ⟨of (.real (Arithmetic.ofInt n))⟩

@[simp] theorem add_of (a b : Value R) : of a + of b = (Value.add a b : Computed R) := rfl

@[simp] theorem sub_of (a b : Value R) : of a - of b = (Value.sub a b : Computed R) := rfl

@[simp] theorem mul_of (a b : Value R) : of a * of b = (Value.mul a b : Computed R) := rfl

@[simp] theorem div_of (a b : Value R) : of a / of b = (Value.div a b : Computed R) := rfl

@[simp] theorem neg_of (a : Value R) : -of a = (Value.neg a : Computed R) := rfl

end Computed

namespace Value

variable {R : Type} [Arithmetic R]

/-- The first coordinate of a position. -/
def x (v : Value R) : Computed R := v.item 0

/-- The second coordinate of a position. -/
def y (v : Value R) : Computed R := v.item 1

end Value

end FeynmanTikz
