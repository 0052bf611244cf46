/-
Vectors: what is asked of their lengths and of their angles.

A length, an angle and the number of steps that go into a length come from a library, which need not round
the way the four operations do.  So little is asked of them.

* `Lengths R ρ`: a difference is rounded once, a length is not much larger than the exact one, and how often
  a number goes into a length is exact unless it is very large,
* `Bounded k x`: a number is undefined, or not further than `k` from zero; `Bounded.add`, `Bounded.sub`,
* `Angles R ρ`: an angle is undefined, or not far from zero,
* `IsDirection θ`: an angle as an arrowhead may have it, along an edge or against it,
* `IsDirection.isTame`, `IsDirection.isTame_add`, `IsDirection.isTame_sub`: directions are not infinite, also
  when they are turned by half a right angle or by a right one,
* `Angles Exact id`: exact arithmetic has all of this.

Design notes.
* A quotient that is rounded before it is rounded down may come out too large by one.  Below `2 ^ 51` the
  remainder shows this, and it is put right.
-/
import FeynmanTikz.Proofs.Number.Rounding
import Mathlib.Data.Rat.Floor

namespace FeynmanTikz

/-- Numbers with differences, lengths, and quotients that are rounded down. -/
class Lengths (R : Type) [Arithmetic R] (ρ : outParam (Rat → Rat)) : Prop extends Rounds R ρ where
  sub : ∀ {x y : R} {m n p q}, Stands x m p → Stands y n q → ρ |signed m p - signed n q| < overflowLimit →
    ∃ s, Stands (x - y) s (ρ |signed m p - signed n q|)
  /-- The length of a vector within a circle exceeds the radius by one at most. -/
  hypot : ∀ {x y : R} {m n p q} {k : Nat}, Stands x m p → Stands y n q → k < 2 ^ 52 →
    p * p + q * q ≤ (k : Rat) ^ 2 → ∃ r, Stands (Arithmetic.hypot x y) false r ∧ r ≤ (k + 1 : Nat)
  floorDiv : ∀ {x y : R} {p q}, Stands x false p → Stands y false q → 0 < q → ⌊p / q⌋ < 2 ^ 51 →
    Stands (Arithmetic.floorDiv x y) false ⌊p / q⌋
  /-- What is too large to be exact is off by one part in `2 ^ 50` at most, or it has become infinite. -/
  floorDiv_large : ∀ {x y : R} {p q}, Stands x false p → Stands y false q → 0 < q → 2 ^ 51 ≤ ⌊p / q⌋ →
    (Arithmetic.reading (Arithmetic.floorDiv x y) = .infinite false ∧ overflowLimit ≤ 2 * ⌊p / q⌋) ∨
      ∃ k : Int, |(k : Rat) - ⌊p / q⌋| ≤ ⌊p / q⌋ / 2 ^ 50 ∧ Stands (Arithmetic.floorDiv x y) false k
  floorDiv_infinite : ∀ {x y : R} {p}, Stands x false p → Arithmetic.reading y = .infinite false →
    Stands (Arithmetic.floorDiv x y) false 0

section

variable {R : Type} [Arithmetic R]

/-! ### Bounds -/

/-- A number that is undefined, or finite and not further than `k` from zero. -/
def Bounded (k : Nat) (x : R) : Prop :=
  Arithmetic.reading x = .undefined ∨ ∃ n q, Stands x n q ∧ q ≤ k

theorem Bounded.mono {k l : Nat} {x : R} (h : Bounded k x) (hkl : k ≤ l) : Bounded l x :=
  h.imp_right fun ⟨n, q, hq, hle⟩ => ⟨n, q, hq, hle.trans (Nat.cast_le.2 hkl)⟩

/-- A number that is not infinite. -/
def IsTame (x : R) : Prop := ∀ n, Arithmetic.reading x ≠ .infinite n

theorem Bounded.isTame {k : Nat} {x : R} (h : Bounded k x) : IsTame x := by
  intro n hn
  rcases h with hundefined | ⟨m, q, hq, -⟩
  · rw [hundefined] at hn
    cases hn
  · rw [hq.reading_eq] at hn
    cases hn

end

/-! ### Angles -/

/-- Numbers with angles as well: an angle is not far from zero, unless it is undefined, and what is undefined
stays so. -/
class Angles (R : Type) [Arithmetic R] (ρ : outParam (Rat → Rat)) : Prop extends Lengths R ρ where
  add : ∀ {x y : R} {m n p q}, Stands x m p → Stands y n q → ρ |signed m p + signed n q| < overflowLimit →
    ∃ s, Stands (x + y) s (ρ |signed m p + signed n q|)
  undefined_add : ∀ {x : R} (y : R), Arithmetic.reading x = .undefined → Arithmetic.reading (x + y) = .undefined
  undefined_sub : ∀ {x : R} (y : R), Arithmetic.reading x = .undefined → Arithmetic.reading (x - y) = .undefined
  /-- Half a turn is less than four. -/
  atan2 : ∀ y x : R, Bounded 4 (Arithmetic.atan2 y x)
  pi : ∃ q, Stands (Arithmetic.pi : R) false q ∧ q ≤ (4 : Nat)

section

variable {R : Type} [Arithmetic R]

/-- The angle of a vector, or the opposite one. -/
inductive IsDirection : R → Prop
  | of (y x : R) : IsDirection (Arithmetic.atan2 y x)
  | along (y x : R) : IsDirection (Arithmetic.atan2 y x + Arithmetic.ofInt 0)
  | against (y x : R) : IsDirection (Arithmetic.atan2 y x + Arithmetic.pi)

variable {ρ : Rat → Rat} [Angles R ρ]

section

variable {k l : Nat} {x y : R} {n : Bool} {q : Rat} (hx : Bounded k x) (hy : Stands y n q) (hq : q ≤ l)
  (hkl : k + l < 2 ^ 53)

include ρ hx hy hq hkl

theorem Bounded.add : Bounded (k + l) (x + y) := by
  rcases hx with hundefined | ⟨m, p, hp, hle⟩
  · exact .inl (Angles.undefined_add y hundefined)
  · have hle := abs_signed_add_le (m := m) (n := n) hp.nonneg hy.nonneg hle hq
    have hbound := (Rounds.isRounding R).le_natCast hkl (abs_nonneg _) hle
    obtain ⟨s, hs⟩ := Angles.add hp hy (lt_overflowLimit hkl hbound)
    exact .inr ⟨s, _, hs, hbound⟩

theorem Bounded.sub : Bounded (k + l) (x - y) := by
  rcases hx with hundefined | ⟨m, p, hp, hle⟩
  · exact .inl (Angles.undefined_sub y hundefined)
  · have hle := abs_signed_sub_le (m := m) (n := n) hp.nonneg hy.nonneg hle hq
    have hbound := (Rounds.isRounding R).le_natCast hkl (abs_nonneg _) hle
    obtain ⟨s, hs⟩ := Lengths.sub hp hy (lt_overflowLimit hkl hbound)
    exact .inr ⟨s, _, hs, hbound⟩

end

include ρ

/-- A right angle and half of one are not further from zero than half a turn. -/
theorem exists_stands_turn {n : Int} (hn : n = 2 ∨ n = 4) :
    ∃ m q, Stands (Arithmetic.pi / Arithmetic.ofInt n : R) m q ∧ q ≤ (4 : Nat) := by
  obtain ⟨q, hpi, hq⟩ := Angles.pi (R := R)
  have hstands : Stands (Arithmetic.ofInt n : R) (decide (n < 0)) n.natAbs := stands_ofInt (by omega)
  have hone : (1 : Rat) ≤ n.natAbs := by rcases hn with rfl | rfl <;> norm_num
  have hle : q / n.natAbs ≤ (4 : Nat) := (div_le_self hpi.nonneg hone).trans hq
  have hbound := (Rounds.isRounding R).le_natCast (by norm_num) (div_nonneg hpi.nonneg (Nat.cast_nonneg _)) hle
  exact ⟨_, _, Rounds.div hpi hstands (by linarith) (lt_overflowLimit (by norm_num) hbound), hbound⟩

namespace IsDirection

variable {θ : R} (h : IsDirection θ)

include h

theorem bounded : Bounded 8 θ := by
  cases h with
  | of y x => exact (Angles.atan2 y x).mono (by norm_num)
  | along y x =>
    have hzero : Stands (Arithmetic.ofInt 0 : R) _ _ := stands_ofInt (by norm_num)
    exact (Angles.atan2 y x).add (l := 4) hzero (by norm_num) (by norm_num)
  | against y x =>
    obtain ⟨q, hpi, hq⟩ := Angles.pi (R := R)
    exact (Angles.atan2 y x).add hpi hq (by norm_num)

theorem isTame : IsTame θ := h.bounded.isTame

theorem isTame_add {n : Int} (hn : n = 2 ∨ n = 4) : IsTame (θ + Arithmetic.pi / Arithmetic.ofInt n) := by
  obtain ⟨m, q, hturn, hq⟩ := exists_stands_turn (R := R) hn
  exact (h.bounded.add hturn hq (by norm_num)).isTame

theorem isTame_sub {n : Int} (hn : n = 2 ∨ n = 4) : IsTame (θ - Arithmetic.pi / Arithmetic.ofInt n) := by
  obtain ⟨m, q, hturn, hq⟩ := exists_stands_turn (R := R) hn
  exact (h.bounded.sub hturn hq (by norm_num)).isTame

end IsDirection

end

/-! ### Exact arithmetic -/

namespace Exact

theorem abs_value_eq (x : Exact) : |x.value| = x.magnitude := by
  unfold value
  split
  · rw [abs_neg, abs_of_nonneg x.nonneg]
  · rw [abs_of_nonneg x.nonneg]

/-- An exact number stands at the distance of its value. -/
theorem stands_value {x : Exact} {q : Rat} (h : x.value = q) : Stands x x.negative |q| := by
  rw [← h, abs_value_eq]
  exact x.stands

theorem value_of_stands {x : Exact} {n : Bool} {q : Rat} (h : Stands x n q) : x.value = signed n q :=
  (Reading.finite.inj h.reading_eq).2

/-- An exact number that is not negative. -/
theorem stands_ofInt_floor {q : Rat} (hq : 0 ≤ q) : Stands (ofReading (.ofRat ⌊q⌋)) false ⌊q⌋ := by
  have hfloor : (0 : Rat) ≤ (⌊q⌋ : Int) := by exact_mod_cast Int.floor_nonneg.2 hq
  have hstands := stands (ofReading (.ofRat ⌊q⌋))
  have hmagnitude : (ofReading (.ofRat ⌊q⌋)).magnitude = ⌊q⌋ := Rat.abs_of_nonneg hfloor
  have hnegative : (ofReading (.ofRat ⌊q⌋)).negative = false := decide_eq_false hfloor.not_gt
  rwa [hmagnitude, hnegative] at hstands

instance : Lengths Exact id where
  sub {x y m n p q} hx hy _ := by
    refine ⟨_, stands_value (x := x - y) ?_⟩
    rw [value_sub, value_of_stands hx, value_of_stands hy]
  hypot {x y m n p q k} hx hy _ h := by
    obtain ⟨rfl, rfl⟩ := eq_of_stands hx
    obtain ⟨rfl, rfl⟩ := eq_of_stands hy
    refine ⟨_, stands _, ?_⟩
    have hk : (0 : Rat) ≤ k := Nat.cast_nonneg k
    have hpp := mul_self_nonneg x.magnitude
    have hqq := mul_self_nonneg y.magnitude
    have hle {a : Rat} (ha : a * a ≤ (k : Rat) ^ 2) : a ≤ (k + 1 : Nat) := by
      have hsides := abs_le_of_sq_le_sq' ((pow_two a).trans_le ha) hk
      push_cast
      linarith
    exact max_le (hle (by linarith)) (hle (by linarith))
  floorDiv {x y p q} hx hy _ _ := by
    show Stands (ofReading (.ofRat ⌊x.value / y.value⌋)) false _
    rw [value_of_stands hx, value_of_stands hy]
    exact stands_ofInt_floor (div_nonneg hx.nonneg hy.nonneg)
  floorDiv_large {x y p q} hx hy _ hlarge := by
    have hfloor : (0 : Rat) ≤ (⌊p / q⌋ : Int) := le_trans (by norm_num) (Int.cast_le.2 hlarge)
    refine .inr ⟨⌊p / q⌋, ?_, ?_⟩
    · rw [sub_self, abs_zero]
      exact div_nonneg hfloor (by norm_num)
    show Stands (ofReading (.ofRat ⌊x.value / y.value⌋)) false _
    rw [value_of_stands hx, value_of_stands hy]
    exact stands_ofInt_floor (div_nonneg hx.nonneg hy.nonneg)
  floorDiv_infinite _ h := by cases h

instance : Angles Exact id where
  add {x y m n p q} hx hy _ := by
    refine ⟨_, stands_value (x := x + y) ?_⟩
    rw [value_add, value_of_stands hx, value_of_stands hy]
  undefined_add _ h := by cases h
  undefined_sub _ h := by cases h
  atan2 _ _ := .inr ⟨_, _, stands _, show (0 : Rat) ≤ (4 : Nat) by norm_num⟩
  pi := ⟨_, stands _, by decide +kernel⟩

end Exact

end FeynmanTikz
