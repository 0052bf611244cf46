/-
Rounding of numbers: how far it moves them, and which bounds it respects.

* `abs_nearestInt_sub_le`, `nearestInt_eq_of_near`: the nearest whole number,
* `floorLog2_spec`, `floorLog2_eq`: the power of two below a number,
* `Double.rounded`: a distance from zero rounded to the mantissa of a double, however large it is,
* `IsRounding`: what is asked of a rounding, and `isRounding_rounded`: this one has it,
* `Rounds R ρ`: an arithmetic whose results are the exact ones, rounded by `ρ`,
* `stands_ofInt`: whole numbers that are not too large are kept,
* `Rounds Exact id`: exact arithmetic rounds nothing.

Design notes.
* A number is a sign and a distance from zero, and rounding never changes the sign.  So a rounding is a
  function of distances.
* An exact result that is too large for a double has none.  `overflowLimit` is where this starts.
-/
import FeynmanTikz.Number.Double
import FeynmanTikz.Proofs.Number.Exact
import Mathlib.Algebra.Order.Field.Power
import Mathlib.Algebra.Order.Field.Rat
import Mathlib.Tactic.NormNum
import Mathlib.Tactic.Positivity
import Mathlib.Tactic.Ring

namespace FeynmanTikz

/-! ### The nearest whole number -/

theorem abs_nearestInt_sub_le (q : Rat) : |(nearestInt q : Rat) - q| ≤ 1 / 2 := by
  have hle := Rat.floor_le q
  have hlt := Rat.lt_floor_add_one q
  push_cast at hlt
  unfold nearestInt
  dsimp only
  rw [abs_le]
  split
  · constructor <;> linarith
  · split
    · push_cast
      constructor <;> linarith
    · have hhalf : q - q.floor = 1 / 2 := by linarith
      rcases Int.emod_two_eq q.floor with h | h
      · rw [h]
        push_cast
        constructor <;> linarith
      · rw [h]
        push_cast
        constructor <;> linarith

/-- A number that is nearer than a half to a whole number is rounded to it. -/
theorem nearestInt_eq_of_near {n : Int} {q : Rat} (h : |q - n| < 1 / 2) : nearestInt q = n := by
  have hq := abs_nearestInt_sub_le q
  rw [abs_le] at hq
  rw [abs_lt] at h
  have hlt : (nearestInt q : Rat) < n + 1 := by linarith
  have hgt : (n : Rat) < nearestInt q + 1 := by linarith
  have hlt : nearestInt q < n + 1 := by exact_mod_cast hlt
  have hgt : n < nearestInt q + 1 := by exact_mod_cast hgt
  omega

namespace Double

/-! ### The nearest double -/

theorem two_zpow_pos (e : Int) : (0 : Rat) < (2 : Rat) ^ e := zpow_pos (by norm_num) e

theorem two_zpow_le {d e : Int} (h : d ≤ e) : (2 : Rat) ^ d ≤ (2 : Rat) ^ e :=
  zpow_le_zpow_right₀ (by norm_num) h

theorem two_zpow_lt_iff {d e : Int} : (2 : Rat) ^ d < (2 : Rat) ^ e ↔ d < e :=
  zpow_lt_zpow_iff_right₀ (by norm_num)

theorem two_zpow_succ (e : Int) : (2 : Rat) ^ (e + 1) = 2 * (2 : Rat) ^ e := by
  rw [zpow_add_one₀ (by norm_num), mul_comm]

/-- A positive whole number lies between two powers of two. -/
theorem log2_spec {n : Nat} (h : n ≠ 0) :
    (2 : Rat) ^ (n.log2 : Int) ≤ n ∧ (n : Rat) < (2 : Rat) ^ ((n.log2 : Int) + 1) := by
  constructor
  · rw [zpow_natCast]
    exact_mod_cast Nat.log2_self_le h
  · have hlt : n < 2 ^ (n.log2 + 1) := Nat.lt_log2_self
    rw [show ((n.log2 : Int) + 1) = ((n.log2 + 1 : Nat) : Int) by push_cast; rfl, zpow_natCast]
    exact_mod_cast hlt

theorem floorLog2_spec {q : Rat} (hq : 0 < q) :
    (2 : Rat) ^ floorLog2 q ≤ q ∧ q < (2 : Rat) ^ (floorLog2 q + 1) := by
  have hnum : q.num.natAbs ≠ 0 := Int.natAbs_ne_zero.2 (Rat.num_pos.2 hq).ne'
  obtain ⟨hn, hn'⟩ := log2_spec hnum
  obtain ⟨hd, hd'⟩ := log2_spec q.den_nz
  have hquot : q = (q.num.natAbs : Rat) / q.den := by
    have habs : ((q.num.natAbs : Nat) : Rat) = (q.num : Rat) := by
      rw [← Int.cast_natCast, Int.natAbs_of_nonneg (Rat.num_pos.2 hq).le]
    rw [habs, Rat.num_div_den]
  have hden : (0 : Rat) < q.den := by exact_mod_cast q.den_pos
  generalize hguess : (q.num.natAbs.log2 : Int) - (q.den.log2 : Int) = guess
  -- The quotient of the leading powers is off by less than a factor of two.
  have hbelow : (2 : Rat) ^ (guess - 1) ≤ q := by
    rw [hquot, le_div_iff₀ hden, ← hguess]
    calc (2 : Rat) ^ ((q.num.natAbs.log2 : Int) - q.den.log2 - 1) * q.den
        ≤ 2 ^ ((q.num.natAbs.log2 : Int) - q.den.log2 - 1) * 2 ^ ((q.den.log2 : Int) + 1) := by
          exact mul_le_mul_of_nonneg_left hd'.le (two_zpow_pos _).le
      _ = 2 ^ (q.num.natAbs.log2 : Int) := by
          rw [← zpow_add₀ (by norm_num)]
          congr 1
          ring
      _ ≤ q.num.natAbs := hn
  have habove : q < (2 : Rat) ^ (guess + 1) := by
    rw [hquot, div_lt_iff₀ hden, ← hguess]
    calc (q.num.natAbs : Rat) < 2 ^ ((q.num.natAbs.log2 : Int) + 1) := hn'
      _ = 2 ^ ((q.num.natAbs.log2 : Int) - q.den.log2 + 1) * 2 ^ (q.den.log2 : Int) := by
          rw [← zpow_add₀ (by norm_num)]
          congr 1
          ring
      _ ≤ 2 ^ ((q.num.natAbs.log2 : Int) - q.den.log2 + 1) * q.den :=
          mul_le_mul_of_nonneg_left hd (two_zpow_pos _).le
  unfold floorLog2
  dsimp only
  rw [hguess]
  split
  · rename_i h
    exact ⟨h, habove⟩
  · rename_i h
    exact ⟨hbelow, by rw [sub_add_cancel]; exact not_le.1 h⟩

theorem floorLog2_lt {q : Rat} {e : Int} (hq : 0 < q) (h : q < (2 : Rat) ^ e) : floorLog2 q < e :=
  two_zpow_lt_iff.1 ((floorLog2_spec hq).1.trans_lt h)

theorem le_floorLog2 {q : Rat} {e : Int} (h : (2 : Rat) ^ e ≤ q) : e ≤ floorLog2 q :=
  Int.lt_add_one_iff.1
    (two_zpow_lt_iff.1 (h.trans_lt (floorLog2_spec ((two_zpow_pos e).trans_le h)).2))

/-- There is only one power of two below a number from which the next one is above it. -/
theorem floorLog2_eq {q : Rat} {e : Int} (h : (2 : Rat) ^ e ≤ q) (h' : q < (2 : Rat) ^ (e + 1)) :
    floorLog2 q = e := by
  have hlt := floorLog2_lt ((two_zpow_pos e).trans_le h) h'
  have hle := le_floorLog2 h
  omega

/-- The exponent of the last bit of the mantissa that a distance is rounded to. -/
def unitExponent (q : Rat) : Int := max (floorLog2 q + 1 - mantissaBits) minExponent

theorem minExponent_le_unit (q : Rat) : minExponent ≤ unitExponent q := le_max_right _ _

/-- A distance from zero rounded to the mantissa of a double, ties to even. -/
def rounded (q : Rat) : Rat :=
  if q = 0 then 0 else nearestInt (q / (2 : Rat) ^ unitExponent q) * (2 : Rat) ^ unitExponent q

theorem rounded_zero : rounded 0 = 0 := rfl

theorem rounded_of_pos {q : Rat} (hq : 0 < q) :
    rounded q = nearestInt (q / (2 : Rat) ^ unitExponent q) * (2 : Rat) ^ unitExponent q :=
  if_neg hq.ne'

/-- A distance is at least one unit in the last place times the leading bit, unless it is tiny. -/
theorem unit_le {q : Rat} (hq : 0 < q) :
    (2 : Rat) ^ unitExponent q ≤ q / 2 ^ 52 ∨ unitExponent q = minExponent := by
  rcases max_choice (floorLog2 q + 1 - mantissaBits) minExponent with h | h
  · refine .inl ?_
    have hunit : unitExponent q = floorLog2 q - 52 := by
      unfold unitExponent
      rw [h]
      show floorLog2 q + 1 - (53 : Int) = _
      ring
    rw [hunit, zpow_sub₀ (by norm_num)]
    exact div_le_div_of_nonneg_right (floorLog2_spec hq).1 (by norm_num)
  · exact .inr h

theorem abs_rounded_sub_le {q : Rat} (hq : 0 ≤ q) : |rounded q - q| ≤ (q + 1) / 2 ^ 53 := by
  rcases hq.eq_or_lt with rfl | hq
  · rw [rounded_zero]
    norm_num
  have hu := two_zpow_pos (unitExponent q)
  have hhalf : |rounded q - q| ≤ (2 : Rat) ^ unitExponent q / 2 := by
    have hnear := abs_nearestInt_sub_le (q / 2 ^ unitExponent q)
    calc |rounded q - q|
        = |(nearestInt (q / 2 ^ unitExponent q) : Rat) - q / 2 ^ unitExponent q| * 2 ^ unitExponent q := by
          rw [rounded_of_pos hq, ← abs_of_pos hu, ← abs_mul, abs_of_pos hu, sub_mul,
            div_mul_cancel₀ _ hu.ne']
      _ ≤ 1 / 2 * 2 ^ unitExponent q := mul_le_mul_of_nonneg_right hnear hu.le
      _ = 2 ^ unitExponent q / 2 := by ring
  rcases unit_le hq with h | h
  · linarith
  · have htiny : (2 : Rat) ^ unitExponent q ≤ 1 / 2 ^ 52 := by
      rw [h]
      exact (two_zpow_le (show minExponent ≤ -52 by decide)).trans (by norm_num)
    linarith

/-- What is below half of the least double is rounded to zero. -/
theorem rounded_eq_zero {q : Rat} (hq : 0 ≤ q) (h : q < (2 : Rat) ^ (minExponent - 1)) : rounded q = 0 := by
  rcases hq.eq_or_lt with rfl | hq
  · exact rounded_zero
  have hunit : unitExponent q = minExponent := by
    have hlog := floorLog2_lt hq h
    refine max_eq_right ?_
    show floorLog2 q + 1 - (53 : Int) ≤ minExponent
    omega
  have hnear : nearestInt (q / (2 : Rat) ^ minExponent) = 0 := by
    refine nearestInt_eq_of_near ?_
    rw [Int.cast_zero, sub_zero, abs_of_pos (div_pos hq (two_zpow_pos _)), div_lt_iff₀ (two_zpow_pos _)]
    refine h.trans_eq ?_
    rw [zpow_sub_one₀ (by norm_num)]
    ring
  rw [rounded_of_pos hq, hunit, hnear, Int.cast_zero, zero_mul]

/-- Where the last bit is worth a whole number or less, whole numbers are kept. -/
theorem natCast_div_unit {n : Nat} {e : Int} (he : e ≤ 0) :
    ((n * 2 ^ (-e).toNat : Nat) : Int) = (n : Rat) / 2 ^ e := by
  have hpow : (2 : Rat) ^ e = ((2 : Rat) ^ (-e).toNat)⁻¹ := by
    rw [← zpow_natCast, Int.toNat_of_nonneg (by omega), zpow_neg, inv_inv]
  rw [hpow, div_inv_eq_mul]
  push_cast
  rfl

/-- Numbers below the range of the mantissa have a last bit that is worth a whole number or less. -/
theorem unitExponent_nonpos {q : Rat} (hq : 0 < q) (h : q < 2 ^ 53) : unitExponent q ≤ 0 := by
  have hlog : floorLog2 q < 53 := floorLog2_lt hq (h.trans_eq (zpow_natCast 2 53).symm)
  refine max_le ?_ (by decide)
  show floorLog2 q + 1 - (53 : Int) ≤ 0
  omega

theorem rounded_le {n : Nat} (hn : n < 2 ^ 53) {q : Rat} (hq : 0 ≤ q) (h : q ≤ n) : rounded q ≤ n := by
  rcases hq.eq_or_lt with rfl | hq
  · exact h
  have hn : (n : Rat) < 2 ^ 53 := by exact_mod_cast hn
  have hu := two_zpow_pos (unitExponent q)
  have hwhole := natCast_div_unit (n := n) (unitExponent_nonpos hq (lt_of_le_of_lt h hn))
  have hle := nearestInt_le (hwhole ▸ div_le_div_of_nonneg_right h hu.le)
  rw [rounded_of_pos hq, ← le_div_iff₀ hu, ← hwhole]
  exact_mod_cast hle

/-- A mantissa has its leading bit, unless the number is tiny. -/
theorem leading_le {q : Rat} (hq : 0 < q) :
    2 ^ 52 ≤ nearestInt (q / (2 : Rat) ^ unitExponent q) ∨ unitExponent q = minExponent := by
  refine (unit_le hq).imp_left fun h => ?_
  refine le_nearestInt ?_
  rw [le_div_iff₀ (two_zpow_pos _)]
  push_cast
  linarith

/-- A mantissa that has been rounded up has one bit more at most. -/
theorem mantissa_le {q : Rat} (hq : 0 < q) :
    nearestInt (q / (2 : Rat) ^ unitExponent q) ≤ 2 ^ 53 := by
  refine nearestInt_le ?_
  rw [div_le_iff₀ (two_zpow_pos _)]
  have hexp : floorLog2 q + 1 ≤ 53 + unitExponent q := by
    have h : floorLog2 q + 1 - (53 : Int) ≤ unitExponent q := le_max_left _ _
    omega
  calc q ≤ 2 ^ (floorLog2 q + 1) := (floorLog2_spec hq).2.le
    _ ≤ 2 ^ (53 + unitExponent q) := two_zpow_le hexp
    _ = 2 ^ (53 : Int) * 2 ^ unitExponent q := zpow_add₀ (by norm_num) _ _
    _ = ((2 ^ 53 : Int) : Rat) * 2 ^ unitExponent q := by norm_num

/-- A distance is rounded to a whole mantissa. -/
theorem exists_mantissa {q : Rat} (hq : 0 < q) :
    ∃ r : Nat, nearestInt (q / (2 : Rat) ^ unitExponent q) = r ∧ r ≤ 2 ^ 53 ∧
      (2 ^ 52 ≤ r ∨ unitExponent q = minExponent) ∧ rounded q = r * (2 : Rat) ^ unitExponent q := by
  have hnonneg : 0 ≤ nearestInt (q / (2 : Rat) ^ unitExponent q) :=
    le_nearestInt (by exact_mod_cast (div_pos hq (two_zpow_pos _)).le)
  obtain ⟨r, hr⟩ := Int.eq_ofNat_of_zero_le hnonneg
  have hbound := mantissa_le hq
  have hleading := leading_le hq
  rw [hr] at hbound hleading
  refine ⟨r, hr, by exact_mod_cast hbound, hleading.imp_left fun h => by exact_mod_cast h, ?_⟩
  rw [rounded_of_pos hq, hr]
  rfl

theorem le_rounded {n : Nat} (hn : n < 2 ^ 53) {q : Rat} (h : n ≤ q) : n ≤ rounded q := by
  have hq : 0 ≤ q := le_trans (Nat.cast_nonneg n) h
  rcases hq.eq_or_lt with rfl | hq
  · exact h
  have hu := two_zpow_pos (unitExponent q)
  rw [rounded_of_pos hq]
  by_cases hlarge : q < 2 ^ 53
  · have hwhole := natCast_div_unit (n := n) (unitExponent_nonpos hq hlarge)
    have hle := le_nearestInt (hwhole ▸ div_le_div_of_nonneg_right h hu.le)
    rw [← div_le_iff₀ hu, ← hwhole]
    exact_mod_cast hle
  · -- The mantissa is full, and its last bit is worth at least two.
    have hlog : 53 ≤ floorLog2 q :=
      le_floorLog2 ((zpow_natCast (2 : Rat) 53).trans_le (not_lt.1 hlarge))
    have hexp : 1 ≤ unitExponent q := by
      have h : floorLog2 q + 1 - (53 : Int) ≤ unitExponent q := le_max_left _ _
      omega
    have hm : (2 ^ 52 : Rat) ≤ nearestInt (q / 2 ^ unitExponent q) := by
      refine (leading_le hq).elim (fun h => by exact_mod_cast h) fun h => ?_
      rw [h] at hexp
      exact absurd hexp (by decide)
    have hn : (n : Rat) < 2 ^ 53 := by exact_mod_cast hn
    calc (n : Rat) ≤ 2 ^ 52 * 2 := by linarith
      _ ≤ 2 ^ 52 * 2 ^ unitExponent q :=
          mul_le_mul_of_nonneg_left ((zpow_one (2 : Rat)).symm.trans_le (two_zpow_le hexp)) (by norm_num)
      _ ≤ nearestInt (q / 2 ^ unitExponent q) * 2 ^ unitExponent q :=
          mul_le_mul_of_nonneg_right hm hu.le

end Double

/-! ### Roundings -/

/-- What is asked of a rounding: it moves no distance far, keeps whole numbers as bounds, and does not
take a twentieth below itself. -/
structure IsRounding (ρ : Rat → Rat) : Prop where
  near : ∀ {q : Rat}, 0 ≤ q → |ρ q - q| ≤ (q + 1) / 2 ^ 53
  le_natCast : ∀ {n : Nat} {q : Rat}, n < 2 ^ 53 → 0 ≤ q → q ≤ n → ρ q ≤ n
  natCast_le : ∀ {n : Nat} {q : Rat}, n < 2 ^ 53 → n ≤ q → n ≤ ρ q
  twentieth : 1 / 20 ≤ ρ (1 / 20)

namespace IsRounding

variable {ρ : Rat → Rat}

theorem nonneg (h : IsRounding ρ) {q : Rat} (hq : 0 ≤ q) : 0 ≤ ρ q := by
  have hzero := h.natCast_le (n := 0) (q := q) (by norm_num) (by exact_mod_cast hq)
  exact_mod_cast hzero

/-- Whole numbers are kept. -/
theorem natCast (h : IsRounding ρ) {n : Nat} (hn : n < 2 ^ 53) : ρ n = n :=
  le_antisymm (h.le_natCast hn (Nat.cast_nonneg n) le_rfl) (h.natCast_le hn le_rfl)

end IsRounding

theorem isRounding_id : IsRounding id where
  near {q} hq := by
    rw [id, sub_self, abs_zero]
    positivity
  le_natCast _ _ h := h
  natCast_le _ h := h
  twentieth := le_rfl

theorem Double.isRounding_rounded : IsRounding rounded where
  near := abs_rounded_sub_le
  le_natCast hn hq h := rounded_le hn hq h
  natCast_le hn h := le_rounded hn h
  twentieth := by decide +kernel

/-- Distances that have no finite double. -/
def overflowLimit : Rat := 2 ^ 1024

theorem lt_overflowLimit {n : Nat} (hn : n < 2 ^ 53) {q : Rat} (h : q ≤ n) : q < overflowLimit := by
  have hn : (n : Rat) < (2 : Rat) ^ 53 := by exact_mod_cast hn
  exact (h.trans_lt hn).trans_le (pow_le_pow_right₀ (by norm_num) (by norm_num))

theorem Double.overflowLimit_le_rounded {q : Rat} (h : (2 : Rat) ^ (1025 : Int) ≤ q) :
    overflowLimit ≤ rounded q := by
  have hone : (1 : Rat) ≤ overflowLimit := one_le_pow₀ (by norm_num)
  replace h : 2 * overflowLimit ≤ q := (two_zpow_succ 1024).symm.trans_le h
  generalize overflowLimit = limit at *
  have hnear := (abs_le.1 (abs_rounded_sub_le (q := q) (by linarith))).1
  linarith

section

variable {R : Type} [Arithmetic R]

/-- The number at a distance from zero, on the side that the sign says. -/
def signed (negative : Bool) (q : Rat) : Rat := if negative then -q else q

/-- A number stands at a distance from zero, on the side that the sign says. -/
structure Stands (x : R) (negative : Bool) (q : Rat) : Prop where
  reading_eq : Arithmetic.reading x = .finite negative (signed negative q)
  nonneg : 0 ≤ q

/-- Every result is the exact one rounded by `ρ`, unless this is too large. -/
class Rounds (R : Type) [Arithmetic R] (ρ : outParam (Rat → Rat)) : Prop where
  isRounding : IsRounding ρ
  exists_stands : ∀ x : R, Arithmetic.isFinite x = true → ∃ n q, Stands x n q
  neg : ∀ {x : R} {n p}, Stands x n p → Stands (-x) (!n) p
  mul : ∀ {x y : R} {m n p q}, Stands x m p → Stands y n q → ρ (p * q) < overflowLimit →
    Stands (x * y) (m != n) (ρ (p * q))
  div : ∀ {x y : R} {m n p q}, Stands x m p → Stands y n q → q ≠ 0 → ρ (p / q) < overflowLimit →
    Stands (x / y) (m != n) (ρ (p / q))
  ofDecimal : ∀ {m : Nat} {e : Int}, ρ (m * (10 : Rat) ^ e) < overflowLimit →
    Stands (Arithmetic.ofDecimal m e : R) false (ρ (m * (10 : Rat) ^ e))
  ofReading : ∀ {n : Bool} {q : Rat}, 0 ≤ q → ρ q < overflowLimit →
    Stands (Arithmetic.ofReading (.finite n (signed n q)) : R) n (ρ q)

theorem abs_signed {n : Bool} {q : Rat} (hq : 0 ≤ q) : (signed n q).abs = q := by
  cases n with
  | false => exact Rat.abs_of_nonneg hq
  | true =>
    show (-q).abs = q
    rw [Rat.abs_neg, Rat.abs_of_nonneg hq]

theorem abs_signed_of_nonneg {n : Bool} {q : Rat} (hq : 0 ≤ q) : |signed n q| = q := by
  cases n with
  | false => exact abs_of_nonneg hq
  | true => exact (abs_neg q).trans (abs_of_nonneg hq)

theorem signed_not (n : Bool) (q : Rat) : signed (!n) q = -signed n q := by
  cases n with
  | false => rfl
  | true => exact (neg_neg q).symm

theorem signed_mul_self (n : Bool) (q : Rat) : signed n q * signed n q = q * q := by
  cases n with
  | false => rfl
  | true => exact neg_mul_neg q q

theorem signed_natAbs (k : Int) : signed (decide (k < 0)) k.natAbs = k := by
  rw [Nat.cast_natAbs]
  by_cases hk : k < 0
  · rw [decide_eq_true hk, abs_of_neg hk]
    show -((-k : Int) : Rat) = k
    rw [Int.cast_neg, neg_neg]
  · rw [decide_eq_false hk, abs_of_nonneg (not_lt.1 hk)]
    rfl

/-- A sum is not further from zero than both sides together. -/
theorem abs_signed_add_le {m n : Bool} {p q : Rat} {k l : Nat} (hp : 0 ≤ p) (hq : 0 ≤ q) (hpk : p ≤ k)
    (hql : q ≤ l) : |signed m p + signed n q| ≤ (k + l : Nat) := by
  calc |signed m p + signed n q| ≤ |signed m p| + |signed n q| := abs_add_le _ _
    _ = p + q := by rw [abs_signed_of_nonneg hp, abs_signed_of_nonneg hq]
    _ ≤ (k + l : Nat) := by
      push_cast
      exact add_le_add hpk hql

/-- Nor is a difference. -/
theorem abs_signed_sub_le {m n : Bool} {p q : Rat} {k l : Nat} (hp : 0 ≤ p) (hq : 0 ≤ q) (hpk : p ≤ k)
    (hql : q ≤ l) : |signed m p - signed n q| ≤ (k + l : Nat) := by
  rw [sub_eq_add_neg, ← signed_not]
  exact abs_signed_add_le hp hq hpk hql

theorem Stands.isFinite {x : R} {n : Bool} {q : Rat} (h : Stands x n q) : Arithmetic.isFinite x = true := by
  unfold Arithmetic.isFinite
  rw [h.reading_eq]
  rfl

theorem Reading.eq_of_isZero {r : Reading} (h : r.isZero = true) : ∃ n, r = .finite n 0 := by
  cases r with
  | undefined => cases h
  | infinite n => cases h
  | finite n q =>
    obtain rfl : q = 0 := by simpa [Reading.isZero] using h
    exact ⟨n, rfl⟩

variable {ρ : Rat → Rat} [Rounds R ρ]

include ρ

/-- A whole number is rounded. -/
theorem stands_ofInt_of_lt {k : Int} (hlt : ρ k.natAbs < overflowLimit) :
    Stands (Arithmetic.ofInt k : R) (decide (k < 0)) (ρ k.natAbs) := by
  have hreading : Reading.ofRat k = .finite (decide (k < 0)) (signed (decide (k < 0)) k.natAbs) := by
    rw [signed_natAbs]
    unfold Reading.ofRat
    simp
  show Stands (Arithmetic.ofReading (.ofRat k) : R) (decide (k < 0)) (ρ k.natAbs)
  rw [hreading]
  exact Rounds.ofReading (Nat.cast_nonneg _) hlt

/-- Whole numbers that are not too large are kept. -/
theorem stands_ofInt {k : Int} (hk : k.natAbs < 2 ^ 53) :
    Stands (Arithmetic.ofInt k : R) (decide (k < 0)) k.natAbs := by
  have hkept := (Rounds.isRounding R).natCast hk
  have hstands := stands_ofInt_of_lt (R := R) (hkept.symm ▸ lt_overflowLimit hk le_rfl)
  rwa [hkept] at hstands

end

/-! ### Exact arithmetic -/

namespace Exact

theorem stands (x : Exact) : Stands x x.negative x.magnitude := ⟨rfl, x.nonneg⟩

theorem eq_of_stands {x : Exact} {n : Bool} {q : Rat} (h : Stands x n q) :
    x.negative = n ∧ x.magnitude = q := by
  obtain ⟨hn, hv⟩ := Reading.finite.inj h.reading_eq
  exact ⟨hn, by rw [← x.abs_value, hv, abs_signed h.nonneg]⟩

instance : Rounds Exact id where
  isRounding := isRounding_id
  exists_stands x _ := ⟨_, _, x.stands⟩
  neg {x n p} h := by
    obtain ⟨rfl, rfl⟩ := eq_of_stands h
    exact stands (-x)
  mul {x y m n p q} hx hy _ := by
    obtain ⟨rfl, rfl⟩ := eq_of_stands hx
    obtain ⟨rfl, rfl⟩ := eq_of_stands hy
    exact stands (x * y)
  div {x y m n p q} hx hy _ _ := by
    obtain ⟨rfl, rfl⟩ := eq_of_stands hx
    obtain ⟨rfl, rfl⟩ := eq_of_stands hy
    exact stands (x / y)
  ofDecimal {m e} _ := stands (Arithmetic.ofDecimal m e : Exact)
  ofReading {n q} hq _ := by
    have hstands := stands (Arithmetic.ofReading (.finite n (signed n q)) : Exact)
    rwa [show (Arithmetic.ofReading (.finite n (signed n q)) : Exact).magnitude = q from abs_signed hq]
      at hstands

end Exact

end FeynmanTikz
