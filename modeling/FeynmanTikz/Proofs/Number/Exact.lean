/-
Exact numbers: rationals with a sign, which a zero has as well.

* `Exact`: an instance of `Arithmetic` in which addition, multiplication and division are never
  rounded,
* `Scalar.exact`: every scalar stands for an exact number,
* `Scalar.add_exact`, `Scalar.sub_exact`, `Scalar.mul_exact`: sums, differences and products of scalars are
  those of the rationals,
* `nearestInt_le` and `le_nearestInt`: rounding respects bounds that are whole numbers.

Design notes.
* What leads out of the rationals, such as a sine, is only a rough guess here.
-/
import FeynmanTikz.Number.Scalar
import Mathlib.Data.Rat.Defs
import Mathlib.Tactic.Linarith

namespace FeynmanTikz

/-! ### Rounding -/

theorem le_nearestInt {n : Int} {q : Rat} (h : (n : Rat) ≤ q) : n ≤ nearestInt q := by
  have hfloor := Rat.le_floor_iff.2 h
  rcases nearestInt_eq_floor_or q with hq | hq
  · omega
  · omega

theorem nearestInt_le {n : Int} {q : Rat} (h : q ≤ n) : nearestInt q ≤ n := by
  have hfloor : q.floor ≤ n := by
    rw [← Rat.floor_intCast n]
    exact Rat.floor_monotone h
  rcases eq_or_lt_of_le hfloor with heq | hlt
  · have hzero : q - (q.floor : Rat) = 0 := by
      have := Rat.floor_le q
      rw [heq] at this ⊢
      linarith
    unfold nearestInt
    dsimp only
    rw [hzero, if_pos (by norm_num)]
    exact hfloor
  · rcases nearestInt_eq_floor_or q with hq | hq
    · omega
    · omega

/-! ### Exact numbers -/

/-- A rational by its sign and its distance from zero. -/
structure Exact where
  negative : Bool
  magnitude : Rat
  nonneg : 0 ≤ magnitude
deriving DecidableEq

namespace Exact

/-- The rational itself. -/
def value (x : Exact) : Rat := if x.negative then -x.magnitude else x.magnitude

/-- A number that is not finite is taken for zero. -/
def ofReading : Reading → Exact
  | .finite n q => ⟨n, q.abs, Rat.abs_nonneg⟩
  | .infinite n => ⟨n, 0, le_rfl⟩
  | .undefined => ⟨false, 0, le_rfl⟩

instance : Add Exact := ⟨fun x y => ofReading (.ofRat (x.value + y.value))⟩

instance : Sub Exact := ⟨fun x y => ofReading (.ofRat (x.value - y.value))⟩

instance : Mul Exact :=
  ⟨fun x y => ⟨x.negative != y.negative, x.magnitude * y.magnitude, Rat.mul_nonneg x.nonneg y.nonneg⟩⟩

instance : Div Exact :=
  ⟨fun x y => ⟨x.negative != y.negative, x.magnitude / y.magnitude, Rat.div_nonneg x.nonneg y.nonneg⟩⟩

instance : Neg Exact := ⟨fun x => ⟨!x.negative, x.magnitude, x.nonneg⟩⟩

instance : Arithmetic Exact where
  ofReading := ofReading
  ofDecimal m e := ⟨false, m * (10 : Rat) ^ e,
    Rat.mul_nonneg (Nat.cast_nonneg m) (Rat.zpow_nonneg (by decide))⟩
  reading x := .finite x.negative x.value
  text x := general (.finite x.negative x.value)
  floorDiv x y := ofReading (Reading.floorQuotient (.finite x.negative x.value) (.finite y.negative y.value))
  hypot x y := ⟨false, max x.magnitude y.magnitude, le_max_of_le_left x.nonneg⟩
  sin x := x
  cos _ := ⟨false, 1, by decide⟩
  atan2 _ _ := ⟨false, 0, le_rfl⟩
  pi := ⟨false, 3, by decide⟩

theorem abs_value (x : Exact) : x.value.abs = x.magnitude := by
  unfold value
  split
  · rw [Rat.abs_neg, Rat.abs_of_nonneg x.nonneg]
  · rw [Rat.abs_of_nonneg x.nonneg]

theorem value_ofRat (q : Rat) : (ofReading (.ofRat q)).value = q := by
  unfold ofReading Reading.ofRat value
  dsimp only
  by_cases hq : q < 0
  · rw [decide_eq_true hq, if_pos rfl, Rat.abs_of_nonpos hq.le, neg_neg]
  · rw [decide_eq_false hq, if_neg (by decide), Rat.abs_of_nonneg (not_lt.1 hq)]

theorem value_add (x y : Exact) : (x + y).value = x.value + y.value := value_ofRat _

theorem value_sub (x y : Exact) : (x - y).value = x.value - y.value := value_ofRat _

theorem value_mul (x y : Exact) : (x * y).value = x.value * y.value := by
  obtain ⟨m, p, hp⟩ := x
  obtain ⟨n, q, hq⟩ := y
  show (if (m != n) = true then -(p * q) else p * q) =
    (if m = true then -p else p) * if n = true then -q else q
  cases m <;> cases n <;> simp

theorem value_div (x y : Exact) : (x / y).value = x.value / y.value := by
  obtain ⟨m, p, hp⟩ := x
  obtain ⟨n, q, hq⟩ := y
  show (if (m != n) = true then -(p / q) else p / q) =
    (if m = true then -p else p) / if n = true then -q else q
  cases m <;> cases n <;> simp [neg_div, div_neg]

theorem value_ofInt (n : Int) : (Arithmetic.ofInt n : Exact).value = n := value_ofRat n

end Exact

/-- The number a scalar stands for. -/
def Scalar.exact : Scalar Exact → Exact
  | .int n => Arithmetic.ofInt n
  | .real x => x

theorem Scalar.reading_exact (x : Scalar Exact) :
    x.reading = .finite x.exact.negative x.exact.value := by
  cases x with
  | real x => rfl
  | int n =>
    show Reading.finite (decide (n < 0)) (n : Rat) =
      .finite (decide ((n : Rat) < 0)) (Exact.ofReading (.ofRat n)).value
    rw [Exact.value_ofRat]
    simp

namespace Scalar

@[simp] theorem exact_int (n : Int) : (Scalar.int n).exact.value = n := Exact.value_ofRat n

@[simp] theorem exact_real (x : Exact) : (Scalar.real x).exact = x := rfl

/-- An operation that agrees with one of the rationals comes to the result of that one. -/
theorem combine_exact {onInt : Int → Int → Int} {onReal : Exact → Exact → Exact}
    {op : Rat → Rat → Rat} (hint : ∀ m n : Int, (onInt m n : Rat) = op m n)
    (hreal : ∀ x y : Exact, (onReal x y).value = op x.value y.value) (a b : Scalar Exact) :
    ∃ c, combine onInt onReal a b = .ok c ∧ c.exact.value = op a.exact.value b.exact.value := by
  cases a with
  | int m =>
    cases b with
    | int n => exact ⟨.int (onInt m n), rfl, by simp [hint]⟩
    | real y => exact ⟨.real (onReal (Scalar.int m).exact y), rfl, hreal _ _⟩
  | real x => cases b <;> exact ⟨.real (onReal x (Scalar.exact _)), rfl, hreal _ _⟩

theorem add_exact (a b : Scalar Exact) :
    ∃ c, a.add b = .ok c ∧ c.exact.value = a.exact.value + b.exact.value :=
  combine_exact Rat.intCast_add Exact.value_add a b

theorem sub_exact (a b : Scalar Exact) :
    ∃ c, a.sub b = .ok c ∧ c.exact.value = a.exact.value - b.exact.value :=
  combine_exact Rat.intCast_sub Exact.value_sub a b

theorem mul_exact (a b : Scalar Exact) :
    ∃ c, a.mul b = .ok c ∧ c.exact.value = a.exact.value * b.exact.value :=
  combine_exact Rat.intCast_mul Exact.value_mul a b

/-- Scalars that stand for one rational are equal as numbers. -/
theorem same_of_exact {a b : Scalar Exact} (h : a.exact.value = b.exact.value) :
    a.same b = true := by
  rw [same_eq, reading_exact, reading_exact, h]
  simp [Reading.same]

end Scalar

end FeynmanTikz
