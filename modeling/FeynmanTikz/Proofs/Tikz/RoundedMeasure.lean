/-
Measures on their way through the text, where every operation rounds.

A distance is divided, rounded to hundredths, and multiplied again.  Each of the operations may round,
but none of them far enough to be seen in the hundredths.

* `Measure.Fits`: the numerals that are printed for the valid numbers of a measure,
* `Measure.scaled` and `Measure.restored`: a distance in the text, and the one that is read back,
* `Measure.fits_nearest`, `Measure.valid_restored`: valid distances are printed as such numerals, and
  valid ones are read back from these,
* `Measure.nearest_scaled_restored`: and these are printed as the same numeral again,
* `Measure.abs_restored_sub_le`: not far from where they were,
* `readsBack_of_rounds` and `printsAgain_of_rounds`: this is what is asked of an arithmetic.

Design notes.
* What is shown about distances holds of every rounding.  That an arithmetic rounds so is needed only to
  know at which distances its numbers stand.
-/
import FeynmanTikz.Proofs.Number.Rounding
import FeynmanTikz.Proofs.Tikz.Readers
import Mathlib.Algebra.Order.Group.MinMax

namespace FeynmanTikz

/-- The numeral that is nearest to a number. -/
def Hundredths.nearest (n : Bool) (q : Rat) : Hundredths := ⟨n, (nearestInt (q * 100)).toNat⟩

namespace Measure

/-! ### Numerals of valid numbers -/

/-- The least number of hundredths that is printed for a valid number. -/
def least : Measure → Nat
  | abscissa | ordinate => 0
  | pointRadius => 4
  | ellipseRadius => 5
  | lineWidth => 40

/-- The largest number of hundredths that is printed for a valid number. -/
def most : Measure → Nat
  | lineWidth => 50000000000
  | _ => 5000000000

/-- Whether there is a sign. -/
def isSigned : Measure → Bool
  | abscissa | ordinate => true
  | _ => false

/-- The numerals that are printed for valid numbers. -/
structure Fits (m : Measure) (h : Hundredths) : Prop where
  sign : m.isSigned = false → h.negative = false
  least : m.least ≤ h.count
  most : h.count ≤ m.most

/-- Editor units in one unit of the text of a measure. -/
def factor : Measure → Rat
  | lineWidth => 2
  | _ => 20

/-- Whether the sign of a measure changes with the axis. -/
def flips : Measure → Bool
  | ordinate => true
  | _ => false

/-- The least number that a measure comes to in the text. -/
def floor : Measure → Rat
  | pointRadius => 4 / 100
  | lineWidth => 4 / 10
  | _ => 0

/-- The largest number that a measure comes to in the text. -/
def furthest : Measure → Nat
  | lineWidth => 500000000
  | _ => 50000000

/-- The signs and the distances that are valid as a measure. -/
structure Valid (m : Measure) (n : Bool) (q : Rat) : Prop where
  sign : m.isSigned = false → n = false
  nonneg : 0 ≤ q
  le_max : q ≤ maxMagnitude
  pos : m.isSigned = false → 0 < q
  one_le : m = ellipseRadius → 1 ≤ q

theorem furthest_mul (m : Measure) : (m.furthest : Rat) * m.factor = maxMagnitude := by
  cases m <;> norm_num [furthest, factor, maxMagnitude]

theorem furthest_lt (m : Measure) : m.furthest < 2 ^ 53 := by
  cases m <;> norm_num [furthest]

theorem most_eq (m : Measure) : m.most = 100 * m.furthest := by
  cases m <;> rfl

theorem two_le_factor (m : Measure) : 2 ≤ m.factor := by
  cases m <;> norm_num [factor]

theorem factor_le (m : Measure) : m.factor ≤ 20 := by
  cases m <;> norm_num [factor]

theorem factor_pos (m : Measure) : 0 < m.factor := lt_of_lt_of_le two_pos m.two_le_factor

theorem floor_nonneg (m : Measure) : 0 ≤ m.floor := by
  cases m <;> norm_num [floor]

theorem floor_le (m : Measure) : m.floor ≤ m.least / 100 := by
  cases m <;> norm_num [floor, least]

theorem four_le_least {m : Measure} (hs : m.isSigned = false) : 4 ≤ m.least := by
  cases m with
  | abscissa | ordinate => cases hs
  | pointRadius | ellipseRadius | lineWidth => decide

theorem floor_le_furthest (m : Measure) : m.floor ≤ m.furthest := by
  cases m <;> norm_num [floor, furthest]

/-! ### Distances -/

/-- What a distance comes to in the text. -/
def scaled (ρ : Rat → Rat) (m : Measure) (q : Rat) : Rat := max (ρ m.floor) (ρ (q / m.factor))

/-- The distance that is read back from a number of hundredths. -/
def restored (ρ : Rat → Rat) (m : Measure) (c : Nat) : Rat := ρ (ρ (c / 100) * m.factor)

section

variable {ρ : Rat → Rat} (hρ : IsRounding ρ) {m : Measure} {q : Rat} {c : Nat}

theorem quotient_le (h : q ≤ maxMagnitude) : q / m.factor ≤ m.furthest := by
  rwa [div_le_iff₀ m.factor_pos, furthest_mul]

theorem hundredths_le (h : c ≤ m.most) : (c : Rat) / 100 ≤ m.furthest := by
  rw [most_eq] at h
  have h : (c : Rat) ≤ 100 * m.furthest := by exact_mod_cast h
  linarith

include hρ

theorem restored_nonneg (m : Measure) (c : Nat) : 0 ≤ m.restored ρ c :=
  hρ.nonneg (mul_nonneg (hρ.nonneg (by positivity)) m.factor_pos.le)

/-- Rounding in the text is not seen in editor units. -/
theorem abs_rounding_sub_le {w : Rat} (hw : 0 ≤ w) (hle : w ≤ m.furthest) :
    |ρ w - w| * m.factor ≤ 1 / 8000000 := by
  have hnear := mul_le_mul_of_nonneg_right (hρ.near hw) m.factor_pos.le
  have hlarge := mul_le_mul_of_nonneg_right hle m.factor_pos.le
  rw [furthest_mul, show maxMagnitude = 1000000000 from rfl] at hlarge
  have hfactor := m.factor_le
  calc |ρ w - w| * m.factor ≤ (w + 1) / 2 ^ 53 * m.factor := hnear
    _ = (w * m.factor + m.factor) / 2 ^ 53 := by ring
    _ ≤ 1 / 8000000 := by
        rw [div_le_iff₀ (by norm_num)]
        norm_num
        linarith

/-- What has no floor of its own is divided, and that is all. -/
theorem scaled_of_no_floor (hm : m.floor = 0) (hq : 0 ≤ q) :
    m.scaled ρ q = ρ (q / m.factor) := by
  have hzero : ρ 0 = 0 := by exact_mod_cast hρ.natCast (n := 0) (by norm_num)
  unfold scaled
  rw [hm, hzero]
  exact max_eq_right (hρ.nonneg (div_nonneg hq m.factor_pos.le))

theorem scaled_le (h : q ≤ maxMagnitude) (hq : 0 ≤ q) : m.scaled ρ q ≤ m.furthest :=
  max_le (hρ.le_natCast m.furthest_lt m.floor_nonneg m.floor_le_furthest)
    (hρ.le_natCast m.furthest_lt (div_nonneg hq m.factor_pos.le) (quotient_le h))

theorem abs_scaled_sub_le (h : q ≤ maxMagnitude) (hq : 0 ≤ q) :
    |m.scaled ρ q - max m.floor (q / m.factor)| * m.factor ≤ 1 / 8000000 := by
  have hfactor := m.factor_pos.le
  refine (mul_le_mul_of_nonneg_right (abs_max_sub_max_le_max _ _ _ _) hfactor).trans ?_
  rw [max_mul_of_nonneg _ _ hfactor]
  exact max_le (abs_rounding_sub_le hρ m.floor_nonneg m.floor_le_furthest)
    (abs_rounding_sub_le hρ (div_nonneg hq hfactor) (quotient_le h))

/-- What is read back is rounded twice. -/
theorem abs_restored_sub_le (h : c ≤ m.most) :
    m.restored ρ c ≤ maxMagnitude ∧ |m.restored ρ c - c / 100 * m.factor| ≤ 1 / 4000000 := by
  have hfactor := m.factor_pos.le
  have hc : (0 : Rat) ≤ c / 100 := by positivity
  have hle := hρ.le_natCast m.furthest_lt hc (hundredths_le h)
  have hnonneg := mul_nonneg (hρ.nonneg hc) hfactor
  have hmul : ρ (c / 100) * m.factor ≤ (1000000000 : Nat) :=
    (mul_le_mul_of_nonneg_right hle hfactor).trans_eq m.furthest_mul
  have hfirst : |ρ (c / 100) * m.factor - c / 100 * m.factor| ≤ 1 / 8000000 := by
    rw [← sub_mul, abs_mul, abs_of_nonneg hfactor]
    exact abs_rounding_sub_le hρ hc (hundredths_le h)
  have hsecond : |m.restored ρ c - ρ (c / 100) * m.factor| ≤ 1 / 8000000 := by
    refine (hρ.near hnonneg).trans ?_
    rw [div_le_iff₀ (by norm_num)]
    push_cast at hmul
    norm_num
    linarith
  refine ⟨hρ.le_natCast (by norm_num) hnonneg hmul, ?_⟩
  rw [abs_le] at *
  constructor <;> linarith

/-- In the text, rounding is far below a hundredth. -/
theorem abs_scaled_sub_lt (h : q ≤ maxMagnitude) (hq : 0 ≤ q) :
    |m.scaled ρ q - max m.floor (q / m.factor)| ≤ 1 / 16000000 := by
  have hscaled := abs_scaled_sub_le hρ (m := m) h hq
  have htwo := mul_le_mul_of_nonneg_left m.two_le_factor
    (abs_nonneg (m.scaled ρ q - max m.floor (q / m.factor)))
  linarith

/-- Valid distances are printed in the range of their measure. -/
theorem fits_nearest {n n' : Bool} (hv : m.Valid n q) (hs : m.isSigned = false → n' = false) :
    m.Fits (Hundredths.nearest n' (m.scaled ρ q)) := by
  have hupper : m.scaled ρ q * 100 ≤ ((m.most : Int) : Rat) := by
    have hle := scaled_le (m := m) hρ hv.le_max hv.nonneg
    rw [most_eq]
    push_cast
    linarith
  have hlower : (m.least : Rat) / 100 ≤ max m.floor (q / m.factor) := by
    cases m with
    | abscissa | ordinate => exact le_max_of_le_left (by norm_num [least, floor])
    | pointRadius | lineWidth => exact le_max_of_le_left (by norm_num [least, floor])
    | ellipseRadius =>
      have hone := hv.one_le rfl
      refine le_max_of_le_right ?_
      norm_num [least, factor]
      linarith
  have hnear := (abs_le.1 (abs_scaled_sub_lt (m := m) hρ hv.le_max hv.nonneg)).1
  have hround := (abs_le.1 (abs_nearestInt_sub_le (m.scaled ρ q * 100))).1
  have hleast : ((m.least : Int) : Rat) < nearestInt (m.scaled ρ q * 100) + 1 := by
    push_cast
    linarith
  have hleast : (m.least : Int) < nearestInt (m.scaled ρ q * 100) + 1 := by exact_mod_cast hleast
  have hmost := nearestInt_le hupper
  refine ⟨hs, ?_, ?_⟩
  · show m.least ≤ (nearestInt _).toNat
    omega
  · show (nearestInt _).toNat ≤ m.most
    omega

/-- What is read back from a numeral of a measure is valid. -/
theorem valid_restored {n : Bool} {h : Hundredths} (hf : m.Fits h) (hs : m.isSigned = false → n = false) :
    m.Valid n (m.restored ρ h.count) := by
  obtain ⟨hmax, hnear⟩ := abs_restored_sub_le hρ hf.most
  have hleast : (m.least : Rat) ≤ h.count := by exact_mod_cast hf.least
  have hc : (0 : Rat) ≤ h.count / 100 := by positivity
  refine ⟨hs, restored_nonneg hρ m h.count, hmax, fun hs => ?_, ?_⟩
  · have hfour : (4 : Rat) ≤ m.least := by exact_mod_cast four_le_least hs
    have hpos : 4 / 100 * 2 ≤ (h.count : Rat) / 100 * m.factor :=
      mul_le_mul (by linarith) m.two_le_factor (by norm_num) hc
    have hbelow := (abs_le.1 hnear).1
    linarith
  · rintro rfl
    -- The least numeral stands for a twentieth, which is rounded to no less.
    have htwentieth : 1 / 20 ≤ ρ ((h.count : Rat) / 100) := by
      rcases hf.least.eq_or_lt with heq | hlt
      · rw [← heq]
        exact (hρ.twentieth).trans_eq (by norm_num [least])
      · have hsix : (6 : Rat) ≤ h.count := by exact_mod_cast hlt
        have hsmall := abs_rounding_sub_le hρ hc (hundredths_le hf.most)
        have hbelow := neg_abs_le (ρ ((h.count : Rat) / 100) - h.count / 100)
        norm_num [factor] at hsmall
        linarith
    refine hρ.natCast_le (n := 1) (by norm_num) ?_
    norm_num [factor]
    linarith

/-- What is read back is printed as the same numeral again. -/
theorem nearest_scaled_restored {n : Bool} {h : Hundredths} (hf : m.Fits h) :
    Hundredths.nearest n (m.scaled ρ (m.restored ρ h.count)) = ⟨n, h.count⟩ := by
  obtain ⟨hmax, hnear⟩ := abs_restored_sub_le hρ hf.most
  have hscaled := abs_scaled_sub_lt (m := m) hρ hmax (restored_nonneg hρ m h.count)
  -- The floor is not above the numeral, so only the quotient matters.
  have hleast : (m.least : Rat) ≤ h.count := by exact_mod_cast hf.least
  have hfloor : max m.floor ((h.count : Rat) / 100) = h.count / 100 :=
    max_eq_right (by linarith [m.floor_le])
  have hquotient : |m.restored ρ h.count / m.factor - h.count / 100| ≤ 1 / 8000000 := by
    rw [← mul_div_cancel_right₀ ((h.count : Rat) / 100) m.factor_pos.ne', ← sub_div, abs_div,
      abs_of_pos m.factor_pos, div_le_iff₀ m.factor_pos]
    linarith [m.two_le_factor]
  have hmiddle : |max m.floor (m.restored ρ h.count / m.factor) - h.count / 100| ≤ 1 / 8000000 := by
    have hle := abs_max_sub_max_le_abs (m.restored ρ h.count / m.factor) (h.count / 100) m.floor
    rw [max_comm _ m.floor, max_comm _ m.floor, hfloor] at hle
    exact hle.trans hquotient
  have hcount : nearestInt (m.scaled ρ (m.restored ρ h.count) * 100) = h.count := by
    refine nearestInt_eq_of_near ?_
    rw [abs_le] at hscaled hmiddle
    rw [abs_lt]
    push_cast
    constructor <;> linarith
  unfold Hundredths.nearest
  rw [hcount, Int.toNat_natCast]

/-- What is read back is not far from what was printed, unless a floor stands between. -/
theorem abs_restored_nearest_sub_le {n n' : Bool} (hfloor : m.floor = 0) (hv : m.Valid n q) :
    |m.restored ρ (Hundredths.nearest n' (m.scaled ρ q)).count - q| ≤ m.factor / 200 + 1 / 1000000 := by
  have hfactor := m.factor_pos
  have hfits := fits_nearest hρ hv hv.sign
  have hrestored := (abs_restored_sub_le hρ hfits.most).2
  have hscaled := abs_scaled_sub_le (m := m) hρ hv.le_max hv.nonneg
  rw [hfloor, max_eq_right (div_nonneg hv.nonneg hfactor.le), ← abs_of_pos hfactor, ← abs_mul,
    abs_of_pos hfactor, sub_mul, div_mul_cancel₀ _ hfactor.ne'] at hscaled
  have hcount : |((Hundredths.nearest n (m.scaled ρ q)).count : Rat) / 100 * m.factor -
      m.scaled ρ q * m.factor| ≤ m.factor / 200 := by
    have hnonneg : 0 ≤ nearestInt (m.scaled ρ q * 100) := by
      refine le_nearestInt ?_
      have hle : 0 ≤ m.scaled ρ q := le_max_of_le_left (hρ.nonneg m.floor_nonneg)
      push_cast
      linarith
    have hcast : ((Hundredths.nearest n (m.scaled ρ q)).count : Rat) = nearestInt (m.scaled ρ q * 100) := by
      unfold Hundredths.nearest
      exact_mod_cast congrArg (Int.cast : Int → Rat) (Int.toNat_of_nonneg hnonneg)
    have hround := mul_le_mul_of_nonneg_right (abs_nearestInt_sub_le (m.scaled ρ q * 100)) hfactor.le
    have hsplit : (nearestInt (m.scaled ρ q * 100) : Rat) / 100 * m.factor - m.scaled ρ q * m.factor =
        (nearestInt (m.scaled ρ q * 100) - m.scaled ρ q * 100) * (m.factor / 100) := by ring
    rw [hcast, hsplit, abs_mul, abs_of_pos (div_pos hfactor (by norm_num))]
    linarith
  show |m.restored ρ (Hundredths.nearest n (m.scaled ρ q)).count - q| ≤ _
  rw [abs_le] at *
  constructor <;> linarith

end

end Measure

/-! ### Numbers that stand at a distance -/

section

variable {R : Type} [Arithmetic R]

/-- `y` is read back from the numeral of `x`, and it is printed as the same numeral. -/
def Measure.Settles (m : Measure) (x y : R) : Prop :=
  m.Recovers (.real x) (.real y) ∧ m.printed (.real y) = m.printed (.real x)

/-- A scalar stands at a distance from zero, and a number of type `R` at the same one. -/
structure Scalar.Stands (x : Scalar R) (n : Bool) (q : Rat) : Prop where
  reading_eq : x.reading = .finite n (signed n q)
  exists_real : ∃ y, x.toReal = .ok y ∧ FeynmanTikz.Stands y n q

theorem Stands.scalar {x : R} {n : Bool} {q : Rat} (h : Stands x n q) : (Scalar.real x).Stands n q :=
  ⟨h.reading_eq, x, rfl, h⟩

theorem Scalar.Stands.isFiniteNumber {x : Scalar R} {n : Bool} {q : Rat} (h : x.Stands n q) :
    isFiniteNumber x = .ok true := by
  obtain ⟨y, hy, hstands⟩ := h.exists_real
  unfold FeynmanTikz.isFiniteNumber
  rw [hy, ← hstands.isFinite]
  rfl

theorem isFar_iff {n : Bool} {q : Rat} (hq : 0 ≤ q) :
    isFar (.finite n (signed n q)) = false ↔ q ≤ maxMagnitude := by
  show (Reading.ofRat maxMagnitude).lt (.finite false (signed n q).abs) = false ↔ _
  rw [abs_signed hq]
  simp [Reading.ofRat]

/-- A number that is larger than nothing has no sign. -/
theorem lt_signed_iff {n : Bool} {p q : Rat} (hp : 0 ≤ p) (hq : 0 ≤ q) :
    p < signed n q ↔ n = false ∧ p < q := by
  cases n with
  | false => exact ⟨fun h => ⟨rfl, h⟩, fun h => h.2⟩
  | true => exact ⟨fun h => absurd (h.trans_le (neg_nonpos.2 hq)) hp.not_gt, fun h => by cases h.1⟩

/-- Whether a finite scalar is valid as a measure is a matter of its sign and its distance from zero. -/
theorem Measure.admits_iff {m : Measure} {x : Scalar R} {n : Bool} {q : Rat}
    (hf : isFiniteNumber x = .ok true) (hx : x.reading = .finite n (signed n q))
    (hq : 0 ≤ q) : m.Admits x ↔ m.Valid n q := by
  have hbounded : (Reading.ofRat maxMagnitude).lt x.reading = false ↔ ¬maxMagnitude < signed n q := by
    rw [hx]
    simp [Reading.ofRat]
  have hpositive : x.reading.le (.ofInt 0) = false ↔ 0 < signed n q := by
    rw [hx]
    simp [Reading.ofInt]
  have hleast : x.reading.lt (.ofRat minEllipseRadius) = false ↔ 1 ≤ signed n q := by
    rw [hx]
    simp [Reading.ofRat, minEllipseRadius]
  cases m with
  | abscissa | ordinate =>
    constructor
    · intro h
      have hnear := h.near
      rw [hx, isFar_iff hq] at hnear
      exact ⟨by rintro ⟨⟩, hq, hnear, by rintro ⟨⟩, by rintro ⟨⟩⟩
    · intro h
      refine ⟨hf, ?_⟩
      rw [hx, isFar_iff hq]
      exact h.le_max
  | pointRadius | lineWidth =>
    constructor
    · intro h
      obtain ⟨rfl, hpos⟩ := (lt_signed_iff le_rfl hq).1 (hpositive.1 h.positive)
      exact ⟨fun _ => rfl, hq, not_lt.1 (hbounded.1 h.bounded), fun _ => hpos, by rintro ⟨⟩⟩
    · intro h
      obtain rfl := h.sign rfl
      exact ⟨⟨hf, hbounded.2 h.le_max.not_gt⟩, hpositive.2 (h.pos rfl)⟩
  | ellipseRadius =>
    constructor
    · intro h
      have hone := hleast.1 h.least
      obtain ⟨rfl, hpos⟩ := (lt_signed_iff le_rfl hq).1 (lt_of_lt_of_le one_pos hone)
      exact ⟨fun _ => rfl, hq, not_lt.1 (hbounded.1 h.bounded), fun _ => hpos, fun _ => hone⟩
    · intro h
      obtain rfl := h.sign rfl
      exact ⟨⟨hf, hbounded.2 h.le_max.not_gt⟩, hleast.2 (h.one_le rfl)⟩

/-- The larger one of two numbers without a sign. -/
theorem exists_larger {x y : R} {p q : Rat} (hx : Stands x false p) (hy : Stands y false q) :
    ∃ z : R, Value.max (.real x) (.real y) = .ok (.real z) ∧ Stands z false (max p q) := by
  have hmax : Value.max (.real x) (.real y) = .ok (if p < q then Value.real y else .real x) := by
    show Except.ok (if (Arithmetic.reading x).lt (Arithmetic.reading y) = true then Value.real y else .real x) = _
    rw [hx.reading_eq, hy.reading_eq]
    simp [signed]
  rw [hmax]
  by_cases h : p < q
  · rw [if_pos h, max_eq_right h.le]
    exact ⟨y, rfl, hy⟩
  · rw [if_neg h, max_eq_left (not_lt.1 h)]
    exact ⟨x, rfl, hx⟩

theorem Scalar.Stands.abs_eq {x : Scalar R} {q : Rat} (h : x.Stands false q) : x.abs = x := by
  cases x with
  | real y =>
    have hsign : (Arithmetic.reading y).isNegative = false := congrArg Reading.isNegative h.reading_eq
    show Scalar.real (if (Arithmetic.reading y).isNegative = true then -y else y) = _
    rw [hsign, if_neg (by decide)]
  | int k =>
    have hsign : decide (k < 0) = false := congrArg Reading.isNegative h.reading_eq
    have hk : 0 ≤ k := not_lt.1 (of_decide_eq_false hsign)
    show Scalar.int k.natAbs = _
    rw [Int.natAbs_of_nonneg hk]

theorem Measure.printed_of_inText {m : Measure} {v : Value R} {z : R} {n : Bool} {q : Rat}
    (h : m.inText v = .ok (.real z)) (hz : Stands z n q) :
    m.printed v = .ok (Hundredths.nearest n q).string := by
  have hfixed := Hundredths.fixed_two n (signed n q)
  rw [abs_signed hz.nonneg] at hfixed
  unfold printed
  rw [h, ok_bind]
  show Except.ok (fixed 2 (Arithmetic.reading z)) = _
  rw [hz.reading_eq, hfixed]
  rfl

variable {ρ : Rat → Rat} [Rounds R ρ]

include ρ

/-- A scalar that is not too large is made a number at the same distance. -/
theorem Scalar.stands {x : Scalar R} {n : Bool} {q : Rat} (h : x.reading = .finite n (signed n q))
    (hq : 0 ≤ q) (hle : q ≤ maxMagnitude) : x.Stands n q := by
  cases x with
  | real y => exact (show FeynmanTikz.Stands y n q from ⟨h, hq⟩).scalar
  | int k =>
    refine ⟨h, Arithmetic.ofInt k, ?_⟩
    obtain ⟨rfl, hv⟩ := Reading.finite.inj h
    have hk : ((k.natAbs : Nat) : Rat) = q := by
      rw [← abs_signed (n := decide (k < 0)) hq, ← hv, ← signed_natAbs k, abs_signed (Nat.cast_nonneg _)]
    have hlt : k.natAbs < 2 ^ 53 := by
      have hle : ((k.natAbs : Nat) : Rat) ≤ 1000000000 := hk.trans_le hle
      have hle : k.natAbs ≤ 1000000000 := by exact_mod_cast hle
      omega
    have hstands : FeynmanTikz.Stands (Arithmetic.ofInt k : R) (decide (k < 0)) k.natAbs := stands_ofInt hlt
    rw [hk] at hstands
    refine ⟨?_, hstands⟩
    show (if Arithmetic.isFinite (Arithmetic.ofInt k : R) = true then _ else _) = _
    rw [if_pos hstands.isFinite]

/-- A finite scalar stands at some distance, as far as its reading goes. -/
theorem Scalar.exists_reading {x : Scalar R} (h : isFiniteNumber x = .ok true) :
    ∃ n q, 0 ≤ q ∧ x.reading = .finite n (signed n q) := by
  cases x with
  | int k =>
    refine ⟨decide (k < 0), k.natAbs, Nat.cast_nonneg _, ?_⟩
    rw [signed_natAbs]
    rfl
  | real y =>
    have hy : Arithmetic.isFinite y = true := Except.ok.inj h
    obtain ⟨n, q, hstands⟩ := Rounds.exists_stands y hy
    exact ⟨n, q, hstands.nonneg, hstands.reading_eq⟩

/-- A valid number stands at a valid distance. -/
theorem Measure.exists_stands {m : Measure} {x : Scalar R} (h : m.Admits x) :
    ∃ n q, x.Stands n q ∧ m.Valid n q := by
  have hf : isFiniteNumber x = .ok true := by
    cases m with
    | abscissa | ordinate => exact h.finite
    | pointRadius | lineWidth => exact h.toIsLength.finite
    | ellipseRadius => exact h.toIsLength.finite
  obtain ⟨n, q, hq, hx⟩ := Scalar.exists_reading hf
  have hv := (admits_iff hf hx hq).1 h
  exact ⟨n, q, Scalar.stands hx hq hv.le_max, hv⟩

/-! ### Into the text -/

/-- A quotient by a positive number keeps the sign. -/
theorem exists_div {x : Scalar R} {y : R} {n : Bool} {p q : Rat} (hx : x.Stands n q)
    (hy : Stands y false p) (hp : p ≠ 0) (hlt : ρ (q / p) < overflowLimit) :
    ∃ z : R, (↑(Value.number x) / ↑(Value.real y) : Computed R).result = .ok (.real z) ∧
      Stands z n (ρ (q / p)) := by
  obtain ⟨u, hu, hstands⟩ := hx.exists_real
  have hzero : (Arithmetic.reading y).isZero = false := by
    rw [hy.reading_eq]
    simpa [Reading.isZero, signed] using hp
  have hdiv : Scalar.div x (.real y) = .ok (.real (u / y)) := by
    have hreal : Scalar.div x (.real y) = (x.toReal >>= fun u =>
        if (Arithmetic.reading y).isZero then .error .divisionByZero else .ok (.real (u / y))) := by
      cases x <;> rfl
    rw [hreal, hu, hzero]
    rfl
  refine ⟨u / y, ?_, ?_⟩
  · show Value.div (.number x) (.number (.real y)) = _
    rw [Value.div_number, hdiv]
    rfl
  · have hquotient := Rounds.div hstands hy hp hlt
    rwa [Bool.bne_false] at hquotient

/-- A number in the other direction; a whole zero has none. -/
theorem Scalar.Stands.exists_neg {x : Scalar R} {n : Bool} {q : Rat} (h : x.Stands n q)
    (hq : 0 ≤ q) (hle : q ≤ maxMagnitude) :
    ∃ n', x.neg.Stands n' q ∧ ∀ y, x = .real y → n' = !n := by
  cases x with
  | real y =>
    have hstands : FeynmanTikz.Stands y n q := ⟨h.reading_eq, hq⟩
    exact ⟨!n, (Rounds.neg hstands).scalar, fun _ _ => rfl⟩
  | int k =>
    obtain ⟨rfl, hv⟩ := Reading.finite.inj h.reading_eq
    have hk : q = ((-k).natAbs : Nat) := by
      rw [← abs_signed (n := decide (k < 0)) hq, ← hv, ← signed_natAbs k, abs_signed (Nat.cast_nonneg _),
        Int.natAbs_neg]
    refine ⟨decide (-k < 0), Scalar.stands ?_ hq hle, fun _ hy => by cases hy⟩
    rw [hk, signed_natAbs]
    rfl

theorem stands_ofDecimal {m : Nat} {e : Int} {q : Rat} (bound : Nat) (hq : m * (10 : Rat) ^ e = q)
    (hbound : bound < 2 ^ 53) (hle : q ≤ bound) : Stands (Arithmetic.ofDecimal m e : R) false (ρ q) := by
  have hρ : IsRounding ρ := Rounds.isRounding R
  have hnonneg : 0 ≤ q := hq ▸ mul_nonneg (Nat.cast_nonneg m) (zpow_nonneg (by norm_num) e)
  have hstands := Rounds.ofDecimal (R := R) (m := m) (e := e)
    (lt_overflowLimit hbound (hρ.le_natCast hbound (hq ▸ hnonneg) (hq ▸ hle)))
  rwa [hq] at hstands

theorem Measure.stands_scale : Stands (Measure.scale : R) false 20 := by
  have hρ : IsRounding ρ := Rounds.isRounding R
  have hstands : Stands (Measure.scale : R) false (ρ 20) :=
    stands_ofDecimal 20 (by norm_num) (by norm_num) (by norm_num)
  have htwenty := hρ.natCast (n := 20) (by norm_num)
  rwa [show (20 : Rat) = (20 : Nat) from rfl, htwenty] at hstands

namespace Measure

/-- A measure is divided by its factor. -/
theorem exists_quotient {m : Measure} {x : Scalar R} {y : R} {n : Bool} {q : Rat} (hx : x.Stands n q)
    (hy : Stands y false m.factor) (hq : 0 ≤ q) (hle : q ≤ maxMagnitude) :
    ∃ z : R, (↑(Value.number x) / ↑(Value.real y) : Computed R).result = .ok (.real z) ∧
      Stands z n (ρ (q / m.factor)) := by
  have hρ : IsRounding ρ := Rounds.isRounding R
  exact exists_div hx hy m.factor_pos.ne'
    (lt_overflowLimit m.furthest_lt
      (hρ.le_natCast m.furthest_lt (div_nonneg hq m.factor_pos.le) (quotient_le hle)))

/-- In the text a valid number stands at its scaled distance.  Its sign is known, unless it is a whole
zero in the other direction. -/
theorem exists_inText {m : Measure} {x : Scalar R} {n : Bool} {q : Rat} (hx : x.Stands n q)
    (hv : m.Valid n q) :
    ∃ z n', m.inText (.number x) = .ok (.real z) ∧ Stands z n' (m.scaled ρ q) ∧
      (m.isSigned = false → n' = false) ∧ ∀ y, x = .real y → n' = (m.flips != n) := by
  have hρ : IsRounding ρ := Rounds.isRounding R
  cases m with
  | abscissa =>
    obtain ⟨z, hz, hstands⟩ := exists_quotient (m := abscissa) hx stands_scale hv.nonneg hv.le_max
    refine ⟨z, n, hz, ?_, by rintro ⟨⟩, fun _ _ => (Bool.false_bne n).symm⟩
    rwa [scaled_of_no_floor hρ rfl hv.nonneg]
  | ordinate =>
    obtain ⟨n', hneg, hn'⟩ := hx.exists_neg hv.nonneg hv.le_max
    obtain ⟨z, hz, hstands⟩ := exists_quotient (m := ordinate) hneg stands_scale hv.nonneg hv.le_max
    refine ⟨z, n', hz, ?_, by rintro ⟨⟩, fun y hy => (hn' y hy).trans (Bool.true_bne n).symm⟩
    rwa [scaled_of_no_floor hρ rfl hv.nonneg]
  | ellipseRadius =>
    obtain rfl := hv.sign rfl
    obtain ⟨z, hz, hstands⟩ := exists_quotient (m := ellipseRadius) hx stands_scale hv.nonneg hv.le_max
    refine ⟨z, false, ?_, ?_, fun _ => rfl, fun _ _ => rfl⟩
    · show (↑(Value.number x.abs) / ↑(Value.real scale : Value R) : Computed R).result = _
      rw [hx.abs_eq, hz]
    · rwa [scaled_of_no_floor hρ rfl hv.nonneg]
  | pointRadius =>
    obtain rfl := hv.sign rfl
    obtain ⟨u, hu, hstands⟩ := exists_quotient (m := pointRadius) hx stands_scale hv.nonneg hv.le_max
    have hfloor : Stands (Arithmetic.ofDecimal 4 (-2) : R) false (ρ (floor pointRadius)) :=
      stands_ofDecimal 1 (by norm_num [floor]) (by norm_num) (by norm_num [floor])
    obtain ⟨z, hz, hmax⟩ := exists_larger hfloor hstands
    refine ⟨z, false, ?_, hmax, fun _ => rfl, fun _ _ => rfl⟩
    show ((↑(Value.number x) / ↑(Value.real scale : Value R) : Computed R).result >>=
      Value.max (.real (Arithmetic.ofDecimal 4 (-2)))) = _
    rw [hu, ok_bind, hz]
  | lineWidth =>
    obtain rfl := hv.sign rfl
    have htwo : Stands (Arithmetic.ofInt 2 : R) false (factor lineWidth) := stands_ofInt (by norm_num)
    obtain ⟨u, hu, hstands⟩ := exists_quotient (m := lineWidth) hx htwo hv.nonneg hv.le_max
    have hfloor : Stands (Arithmetic.ofDecimal 4 (-1) : R) false (ρ (floor lineWidth)) :=
      stands_ofDecimal 1 (by norm_num [floor]) (by norm_num) (by norm_num [floor])
    obtain ⟨z, hz, hmax⟩ := exists_larger hfloor hstands
    refine ⟨z, false, ?_, hmax, fun _ => rfl, fun _ _ => rfl⟩
    show ((↑(Value.number x) / ↑(Value.real (Arithmetic.ofInt 2) : Value R) : Computed R).result >>=
      Value.max (.real (Arithmetic.ofDecimal 4 (-1)))) = _
    rw [hu, ok_bind, hz]

theorem stands_hundredths {m : Measure} {c : Nat} (hc : c ≤ m.most) :
    Stands (Arithmetic.ofDecimal c (-2) : R) false (ρ (c / 100)) :=
  stands_ofDecimal m.furthest (by norm_num [zpow_neg, div_eq_mul_inv]) m.furthest_lt (hundredths_le hc)

theorem stands_number {m : Measure} {h : Hundredths} (hc : h.count ≤ m.most) :
    Stands (h.number : R) h.negative (ρ (h.count / 100)) := by
  have hdecimal : Stands (Arithmetic.ofDecimal h.count (-2) : R) false (ρ (h.count / 100)) :=
    stands_hundredths hc
  obtain ⟨negative, count⟩ := h
  cases negative with
  | false => exact hdecimal
  | true => exact Rounds.neg hdecimal

/-- The number that is read back from a numeral of a measure. -/
theorem stands_value {m : Measure} {h : Hundredths} (hf : m.Fits h) :
    Stands (m.value h : R) (m.flips != h.negative) (m.restored ρ h.count) := by
  have hρ : IsRounding ρ := Rounds.isRounding R
  have hlt : m.restored ρ h.count < overflowLimit :=
    lt_overflowLimit (n := 1000000000) (by norm_num) (by exact_mod_cast (abs_restored_sub_le hρ hf.most).1)
  have hnumber : Stands (h.number : R) h.negative (ρ (h.count / 100)) := stands_number hf.most
  cases m with
  | abscissa | pointRadius | ellipseRadius =>
    have hproduct := Rounds.mul hnumber stands_scale hlt
    rw [Bool.bne_false] at hproduct
    show Stands _ (false != h.negative) _
    rwa [Bool.false_bne]
  | ordinate =>
    have hproduct := Rounds.mul (Rounds.neg hnumber) stands_scale hlt
    rw [Bool.bne_false] at hproduct
    show Stands _ (true != h.negative) _
    rwa [Bool.true_bne]
  | lineWidth =>
    have htwo : Stands (Arithmetic.ofInt 2 : R) false 2 := stands_ofInt (by norm_num)
    have hdecimal : Stands (Arithmetic.ofDecimal h.count (-2) : R) false (ρ (h.count / 100)) :=
      stands_hundredths hf.most
    rw [hf.sign rfl]
    exact Rounds.mul hdecimal htwo hlt

theorem accepts_of_fits {m : Measure} {h : Hundredths} (hf : m.Fits h) : m.Accepts R h := by
  have hnumber : Stands (h.number : R) h.negative (ρ (h.count / 100)) := stands_number hf.most
  cases m with
  | lineWidth => exact ⟨hf.sign rfl, (stands_value hf).isFinite⟩
  | abscissa | ordinate | pointRadius | ellipseRadius => exact hnumber.isFinite

/-- A valid number is printed as a numeral of its measure. -/
theorem exists_numeral {m : Measure} {x : Scalar R} {n : Bool} {q : Rat} (hx : x.Stands n q)
    (hv : m.Valid n q) :
    ∃ n', m.printed (.number x) = .ok (Hundredths.nearest n' (m.scaled ρ q)).string ∧
      m.Fits (Hundredths.nearest n' (m.scaled ρ q)) ∧ ∀ y, x = .real y → n' = (m.flips != n) := by
  have hρ : IsRounding ρ := Rounds.isRounding R
  obtain ⟨z, n', hz, hstands, hsign, hreal⟩ := exists_inText hx hv
  exact ⟨n', printed_of_inText hz hstands, fits_nearest hρ hv hsign, hreal⟩

theorem recovered_value {m : Measure} {h : Hundredths} (hf : m.Fits h) :
    m.recovered h.string = .ok (.real (m.value h : R)) :=
  recovered_eq_ok.2 ⟨accepts_of_fits hf, rfl⟩

/-- What is read back from a numeral of a measure stands at a valid distance. -/
theorem valid_value {m : Measure} {h : Hundredths} (hf : m.Fits h) :
    Stands (m.value h : R) (m.flips != h.negative) (m.restored ρ h.count) ∧
      m.Valid (m.flips != h.negative) (m.restored ρ h.count) := by
  refine ⟨stands_value hf, valid_restored (Rounds.isRounding R) hf fun hs => ?_⟩
  rw [hf.sign hs]
  cases m <;> first | rfl | cases hs

/-- And it is printed as this numeral again. -/
theorem printed_value {m : Measure} {h : Hundredths} (hf : m.Fits h) :
    m.printed (.real (m.value h : R)) = .ok h.string := by
  obtain ⟨hstands, hv⟩ := valid_value (R := R) hf
  obtain ⟨n', hprinted, -, hreal⟩ := exists_numeral hstands.scalar hv
  have hsign : n' = h.negative := by
    rw [hreal _ rfl]
    cases m.flips <;> cases h.negative <;> rfl
  refine hprinted.trans ?_
  rw [nearest_scaled_restored (Rounds.isRounding R) hf, hsign]

/-- From the numeral of a valid number of type `R` a valid one on the same side of zero is read back, and
it is printed as the same numeral. -/
theorem exists_settled {m : Measure} {x : R} {n : Bool} {q : Rat} (hx : Stands x n q) (hv : m.Valid n q) :
    ∃ (y : R) (r : Rat), m.Settles x y ∧ Stands y n r ∧ m.Valid n r ∧
      (m.floor = 0 → |r - q| ≤ m.factor / 200 + 1 / 1000000) := by
  obtain ⟨n', hprinted, hf, hreal⟩ := exists_numeral hx.scalar hv
  obtain ⟨hvalue, hv'⟩ := valid_value (R := R) hf
  have hsign : (m.flips != (Hundredths.nearest n' (m.scaled ρ q)).negative) = n := by
    show (m.flips != n') = n
    rw [hreal x rfl]
    cases m.flips <;> cases n <;> rfl
  rw [hsign] at hvalue hv'
  exact ⟨_, _, ⟨⟨_, hprinted, recovered_value hf⟩, (printed_value hf).trans hprinted.symm⟩, hvalue, hv',
    fun hfloor => abs_restored_nearest_sub_le (Rounds.isRounding R) hfloor hv⟩

end Measure

/-- Where every operation rounds, valid numbers are read back from what is printed for valid ones. -/
theorem readsBack_of_rounds : ReadsBack R := by
  intro m x hx
  obtain ⟨n, q, hstands, hv⟩ := Measure.exists_stands hx
  obtain ⟨n', hprinted, hf, -⟩ := Measure.exists_numeral hstands hv
  obtain ⟨hvalue, hv'⟩ := Measure.valid_value (R := R) hf
  exact ⟨_, ⟨_, hprinted, Measure.recovered_value hf⟩,
    (Measure.admits_iff hvalue.scalar.isFiniteNumber hvalue.reading_eq hvalue.nonneg).2 hv'⟩

/-- Where every operation rounds, what is read back is printed as the same numeral. -/
theorem printsAgain_of_rounds : PrintsAgain R := by
  intro m x y hx hxy
  obtain ⟨n, q, hstands, hv⟩ := Measure.exists_stands hx
  obtain ⟨n', hprinted, hf, -⟩ := Measure.exists_numeral hstands hv
  obtain ⟨h, hprinted', -, rfl⟩ := hxy.eq_real
  have hh := Hundredths.string_injective (Except.ok.inj (hprinted.symm.trans hprinted'))
  rw [hh] at hf
  exact (Measure.printed_value hf).trans hprinted'.symm

end

theorem readsBack_exact : ReadsBack Exact := readsBack_of_rounds

theorem printsAgain_exact : PrintsAgain Exact := printsAgain_of_rounds

end FeynmanTikz
