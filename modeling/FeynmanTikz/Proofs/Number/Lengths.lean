/-
Differences and lengths of doubles.

A difference of doubles is the exact one rounded, and the square root of a sum of squares stays next to the
root of a rational.  So the length of the step between two positions is a finite double, and so is how
often a step goes into it, unless this is too large for any double.

* `unpacks_round`, `Unpacks.sub`: the difference of unpacked doubles,
* `exists_stands_sub`: the difference of doubles,
* `exists_stands_hypot`: a length is not much larger than the larger side,
* `reading_nearest_of_large`: what is too large has become an infinity,
* `exists_rounded_natCast`: whole numbers stay whole,
* `Lengths Float Double.rounded`: so doubles have lengths.
-/
import FeynmanTikz.Proofs.Number.Doubles
import FeynmanTikz.Proofs.Number.Vectors

namespace FeynmanTikz

namespace Double

open Float.Model (Format UnpackedFloat totalExponent)
open Float.Model.UnpackedFloat

/-! ### Differences -/

theorem floorLog2_natCast_mul {m : Nat} (hm : 0 < m) (e : Int) :
    floorLog2 (m * (2 : Rat) ^ e) = m.log2 + e := by
  have h := floorLog2_mul_two_zpow (w := m) e (by rw [Nat.floor_natCast]; exact hm.ne')
  rwa [Nat.floor_natCast] at h

/-- What is canonical has been rounded already. -/
theorem IsCanonical.rounded_eq {m : Nat} {e : Int} (hc : IsCanonical m e) :
    rounded (m * (2 : Rat) ^ e) = m * (2 : Rat) ^ e := by
  rcases Nat.eq_zero_or_pos m with rfl | hm
  · rw [Nat.cast_zero, zero_mul, rounded_zero]
  have hpos : 0 < m * (2 : Rat) ^ e := mul_pos (by exact_mod_cast hm) (two_zpow_pos e)
  have hlog := floorLog2_natCast_mul hm e
  have hunit : unitExponent (m * (2 : Rat) ^ e) = e := by
    have hlt := (Nat.log2_lt hm.ne').2 hc.lt
    have hle := hc.le_exponent
    unfold unitExponent
    rw [hlog, show (mantissaBits : Int) = 53 from rfl]
    rcases hc.leading with h | h
    · have := (Nat.le_log2 hm.ne').2 h
      omega
    · omega
  rw [rounded_of_pos hpos, hunit, mul_div_cancel_right₀ _ (two_zpow_pos e).ne']
  congr 1
  exact_mod_cast nearestInt_eq_of_near (by simp)

/-- A mantissa that has been shifted to a lower exponent. -/
theorem decreaseExponent_value (m : Nat) (e t : Int) :
    (decreaseExponent m e t).1 * (2 : Rat) ^ (decreaseExponent m e t).2 = m * (2 : Rat) ^ e := by
  unfold decreaseExponent
  dsimp only
  generalize (e - t).toNat = k
  rw [Nat.shiftLeft_eq]
  push_cast
  rw [mul_assoc, ← zpow_natCast, ← zpow_add₀ (by norm_num), add_sub_cancel]

theorem unpacks_round (n : Bool) {m : Nat} (hm : 0 < m) (e : Int) :
    Unpacks (UnpackedFloat.round Format.binary64 (signOf n) m e) n (rounded (m * (2 : Rat) ^ e)) := by
  have hlog := floorLog2_natCast_mul hm e
  have hunit : Format.binary64.targetExponent (totalExponent m e) = unitExponent (m * (2 : Rat) ^ e) := by
    unfold unitExponent totalExponent
    rw [targetExponent_eq, hlog, show (mantissaBits : Int) = 53 from rfl]
    omega
  unfold UnpackedFloat.round
  dsimp only
  rw [hunit]
  have hvalue := decreaseExponent_value m e (unitExponent (m * (2 : Rat) ^ e))
  have hexponent : (decreaseExponent m e (unitExponent (m * (2 : Rat) ^ e))).2 ≤
      unitExponent (m * (2 : Rat) ^ e) := by
    unfold decreaseExponent
    dsimp only
    omega
  generalize decreaseExponent m e (unitExponent (m * (2 : Rat) ^ e)) = shifted at hvalue hexponent ⊢
  have hpos : (0 : Rat) < shifted.1 := by
    refine pos_of_mul_pos_left ?_ (two_zpow_pos shifted.2).le
    rw [hvalue]
    exact mul_pos (by exact_mod_cast hm) (two_zpow_pos e)
  rw [← hvalue] at hexponent ⊢
  exact unpacks_roundWithAccuracy n hpos (extended_natCast _) hexponent

theorem apply_signOf (n : Bool) (m : Nat) : (signOf n).apply (m : Int) = if n then -(m : Int) else m := by
  cases n <;> rfl

/-- A mantissa with a sign, at an exponent that is no larger than its own. -/
theorem aligned_value (n : Bool) (m : Nat) {e t : Int} (ht : t ≤ e) :
    ((signOf n).apply ((decreaseExponent m e t).1 : Int) : Rat) * (2 : Rat) ^ t =
      signed n (m * (2 : Rat) ^ e) := by
  have hvalue := decreaseExponent_value m e t
  rw [show (decreaseExponent m e t).2 = t by unfold decreaseExponent; dsimp only; omega] at hvalue
  rw [← hvalue, apply_signOf]
  cases n with
  | false => rfl
  | true =>
    show ((-((decreaseExponent m e t).1 : Int) : Int) : Rat) * _ = -(_ * _)
    push_cast
    ring

/-- A mantissa with a sign is rounded to the distance at which it stands. -/
theorem exists_unpacks_normalize (k : Int) (e : Int) :
    ∃ s, Unpacks (UnpackedFloat.normalize Format.binary64 k e .positive) s (rounded |k * (2 : Rat) ^ e|) := by
  have habs : |(k : Rat) * (2 : Rat) ^ e| = k.natAbs * (2 : Rat) ^ e := by
    rw [abs_mul, abs_of_pos (two_zpow_pos e), Nat.cast_natAbs, Int.cast_abs]
  rw [habs]
  unfold UnpackedFloat.normalize
  rcases lt_trichotomy k 0 with hk | rfl | hk
  · rw [compare_lt_iff_lt.2 hk, show k.natAbs = (-k).toNat by omega]
    exact ⟨true, unpacks_round true (by omega) e⟩
  · refine ⟨false, ?_⟩
    rw [Int.natAbs_zero, Nat.cast_zero, zero_mul, rounded_zero]
    exact unpacks_zero rfl
  · rw [compare_gt_iff_gt.2 hk, show k.natAbs = k.toNat by omega]
    exact ⟨false, unpacks_round false (by omega) e⟩

theorem Unpacks.rounded_eq {u : UnpackedFloat} {n : Bool} {q : Rat} (h : Unpacks u n q) : rounded q = q := by
  obtain ⟨m, e, -, hc, rfl⟩ := h
  exact hc.rounded_eq

theorem Unpacks.nonneg {u : UnpackedFloat} {n : Bool} {q : Rat} (h : Unpacks u n q) : 0 ≤ q := by
  obtain ⟨m, e, -, -, rfl⟩ := h
  exact magnitude_nonneg m e

/-- The difference is rounded once. -/
theorem Unpacks.sub {u v : UnpackedFloat} {n n' : Bool} {p q : Rat} (hu : Unpacks u n p)
    (hv : Unpacks v n' q) :
    ∃ s, Unpacks (UnpackedFloat.sub Format.binary64 u v) s (rounded |signed n p - signed n' q|) := by
  rcases hu.cases with ⟨rfl, rfl⟩ | ⟨m₁, e₁, hm₁, rfl, hc₁, rfl⟩
  · have hdiff : |signed n 0 - signed n' q| = q := by
      have hzero : signed n 0 = 0 := by cases n <;> simp [signed]
      rw [hzero, zero_sub, abs_neg, abs_signed_of_nonneg hv.nonneg]
    rw [hdiff, hv.rounded_eq]
    rcases hv.cases with ⟨rfl, rfl⟩ | ⟨m₂, e₂, hm₂, rfl, hc₂, rfl⟩
    · refine ⟨n && !n', ?_⟩
      cases n <;> cases n' <;> exact unpacks_zero rfl
    · exact ⟨!n', unpacks_finite (neg_signOf n') hm₂ hc₂⟩
  · rcases hv.cases with ⟨rfl, rfl⟩ | ⟨m₂, e₂, hm₂, rfl, hc₂, rfl⟩
    · have hdiff : |signed n (m₁ * (2 : Rat) ^ e₁) - signed n' 0| = m₁ * (2 : Rat) ^ e₁ := by
        have hzero : signed n' 0 = 0 := by cases n' <;> simp [signed]
        rw [hzero, sub_zero, abs_signed_of_nonneg hu.nonneg]
      rw [hdiff, hu.rounded_eq]
      exact ⟨n, hu⟩
    · have hdiff : signed n (m₁ * (2 : Rat) ^ e₁) - signed n' (m₂ * (2 : Rat) ^ e₂) =
          (((signOf n).apply ((decreaseExponent m₁ e₁ (min e₁ e₂)).1 : Int) -
            (signOf n').apply ((decreaseExponent m₂ e₂ (min e₁ e₂)).1 : Int) : Int) : Rat) *
              (2 : Rat) ^ min e₁ e₂ := by
        rw [← aligned_value n m₁ (min_le_left e₁ e₂), ← aligned_value n' m₂ (min_le_right e₁ e₂)]
        push_cast
        ring
      rw [hdiff]
      exact exists_unpacks_normalize _ _

theorem exists_stands_sub {x y : Float} {m n : Bool} {p q : Rat} (hx : Stands x m p) (hy : Stands y n q)
    (hlt : rounded |signed m p - signed n q| < overflowLimit) :
    ∃ s, Stands (x - y) s (rounded |signed m p - signed n q|) := by
  obtain ⟨s, hs⟩ := (unpacks_of_stands hx).1.sub (unpacks_of_stands hy).1
  exact ⟨s, hs.stands hlt⟩

/-! ### Lengths -/

/-- The root of what is not larger than a square. -/
theorem exists_stands_nearestSqrt {q : Rat} {k : Nat} (hk : k < 2 ^ 52) (h : q ≤ (k : Rat) ^ 2) :
    ∃ r, Stands (nearestSqrt q) false r ∧ r ≤ (k + 1 : Nat) := by
  have hround {s : Rat} (hs : 0 ≤ s) (hle : s ≤ (k + 1 : Nat)) :
      ∃ r, Stands (nearest s) false r ∧ r ≤ (k + 1 : Nat) := by
    have hbound := rounded_le (by omega) hs hle
    exact ⟨_, stands_nearest hs (lt_overflowLimit (by omega) hbound), hbound⟩
  unfold nearestSqrt
  split
  · exact hround le_rfl (Nat.cast_nonneg _)
  rename_i hq
  have hpos : 0 < q := not_le.1 hq
  dsimp only
  generalize hshift : 65 - floorLog2 q / 2 = shift
  have hnonneg : 0 ≤ shift := by
    have hlt : floorLog2 q < 104 := by
      refine floorLog2_lt hpos (h.trans_lt ?_)
      have hk : (k : Rat) < 2 ^ 52 := by exact_mod_cast hk
      calc (k : Rat) ^ 2 < (2 ^ 52) ^ 2 := pow_lt_pow_left₀ hk (Nat.cast_nonneg k) two_ne_zero
        _ = 2 ^ (104 : Int) := by norm_num
    omega
  have hfour : (4 : Rat) ^ shift = (2 ^ shift) ^ 2 := by
    rw [show (4 : Rat) = 2 ^ (2 : Nat) by norm_num, ← zpow_natCast, ← zpow_natCast, ← zpow_mul, ← zpow_mul,
      mul_comm]
  have hunit : (0 : Rat) < 2 ^ shift := two_zpow_pos shift
  have hone : (1 : Rat) ≤ 2 ^ shift := one_le_zpow₀ (by norm_num) hnonneg
  have hscaled : 0 ≤ q * (4 : Rat) ^ shift := by
    rw [hfour]
    positivity
  -- The whole root is taken of a number that has been scaled by the square of the unit.
  have hroot : (((q * (4 : Rat) ^ shift).floor.toNat.sqrt : Nat) : Rat) ≤ k * 2 ^ shift := by
    have hsquare : (((q * (4 : Rat) ^ shift).floor.toNat.sqrt : Nat) : Rat) ^ 2 ≤ (k * 2 ^ shift) ^ 2 := by
      have hfloor : 0 ≤ (q * (4 : Rat) ^ shift).floor := Rat.le_floor_iff.2 (by exact_mod_cast hscaled)
      calc (((q * (4 : Rat) ^ shift).floor.toNat.sqrt : Nat) : Rat) ^ 2
          ≤ ((q * (4 : Rat) ^ shift).floor.toNat : Nat) := by exact_mod_cast Nat.sqrt_le' _
        _ = ((q * (4 : Rat) ^ shift).floor : Rat) := by exact_mod_cast Int.toNat_of_nonneg hfloor
        _ ≤ q * 4 ^ shift := Rat.floor_le _
        _ ≤ (k * 2 ^ shift) ^ 2 := by
          rw [hfour, mul_pow]
          exact mul_le_mul_of_nonneg_right h (by positivity)
    exact (pow_le_pow_iff_left₀ (Nat.cast_nonneg _) (by positivity) two_ne_zero).1 hsquare
  generalize (q * (4 : Rat) ^ shift).floor.toNat.sqrt = root at hroot ⊢
  have hexact : ∀ x : Rat, x = root ∨ x = root + 1 / 2 →
      0 ≤ x * (2 : Rat) ^ (-shift) ∧ x * (2 : Rat) ^ (-shift) ≤ (k + 1 : Nat) := by
    intro x hx
    have hbounds : 0 ≤ x ∧ x ≤ (k + 1) * 2 ^ shift := by
      have := Nat.cast_nonneg (α := Rat) root
      rcases hx with rfl | rfl
      · constructor <;> linarith
      · constructor <;> linarith
    rw [zpow_neg, ← div_eq_mul_inv]
    refine ⟨div_nonneg hbounds.1 hunit.le, (div_le_iff₀ hunit).2 ?_⟩
    exact_mod_cast hbounds.2
  split
  · exact hround (hexact _ (.inl rfl)).1 (hexact _ (.inl rfl)).2
  · exact hround (hexact _ (.inr rfl)).1 (hexact _ (.inr rfl)).2

/-- The length of what lies within a circle. -/
theorem exists_stands_hypot {x y : Float} {m n : Bool} {p q : Rat} {k : Nat} (hx : Stands x m p)
    (hy : Stands y n q) (hk : k < 2 ^ 52) (h : p * p + q * q ≤ (k : Rat) ^ 2) :
    ∃ r, Stands (Arithmetic.hypot x y) false r ∧ r ≤ (k + 1 : Nat) := by
  have hhypot : Arithmetic.hypot x y = nearestSqrt (p * p + q * q) := by
    show hypot x y = _
    unfold hypot
    rw [show reading x = _ from hx.reading_eq, show reading y = _ from hy.reading_eq]
    dsimp only
    rw [signed_mul_self, signed_mul_self]
  rw [hhypot]
  exact exists_stands_nearestSqrt hk h

/-! ### What is too large -/

theorem reading_infinity : reading (ofMagnitude false infinityBits) = .infinite false := by decide +kernel

/-- What is too large for a double has become an infinity. -/
theorem reading_nearest_of_large {q : Rat} (hq : 0 < q) (h : overflowLimit ≤ rounded q) :
    reading (nearest q) = .infinite false := by
  obtain ⟨r, hr, hbound, hleading, hvalue⟩ := exists_mantissa hq
  have hc := isCanonical_carried hbound (minExponent_le_unit q) hleading
  rw [hvalue, ← carried_value r (unitExponent q)] at h
  have hexponent : 972 ≤ (carried r (unitExponent q)).2 := by
    by_contra hlt
    exact absurd (hc.lt_overflowLimit (not_le.1 hlt)) (not_lt.2 h)
  have hbits : nearestBits q = infinityBits := by
    show min ((unitExponent q - minExponent).toNat * leadingBit +
      (nearestInt (q / (2 : Rat) ^ unitExponent q)).toNat) infinityBits = _
    rw [hr, Int.toNat_natCast, bits_carried (minExponent_le_unit q)]
    refine min_eq_right ?_
    have hmin : minExponent = -1074 := rfl
    have hinf : infinityBits = 2047 * 2 ^ 52 := rfl
    have hmantissa := hc.leading.resolve_right (by omega)
    rw [leadingBit_eq]
    omega
  have hsign : Reading.ofRat q = .finite false q := by
    unfold Reading.ofRat
    rw [decide_eq_false (not_lt.2 hq.le)]
  unfold nearest
  rw [hsign]
  show reading (ofMagnitude false (if q = 0 then 0 else nearestBits q.abs)) = _
  rw [if_neg hq.ne', Rat.abs_of_nonneg hq.le, hbits, reading_infinity]

/-! ### Quotients that are rounded down -/

/-- A whole number that takes more bits than a mantissa has is rounded to one. -/
theorem exists_rounded_natCast (n : Nat) : ∃ r : Nat, rounded n = r := by
  by_cases hn : n < 2 ^ 53
  · exact ⟨n, isRounding_rounded.natCast hn⟩
  have hlarge : (2 : Rat) ^ 53 ≤ n := by exact_mod_cast not_lt.1 hn
  have hpos : (0 : Rat) < n := lt_of_lt_of_le (by norm_num) hlarge
  have hexponent : 0 ≤ unitExponent n := by
    have hlog : 53 ≤ floorLog2 n := le_floorLog2 ((zpow_natCast (2 : Rat) 53).trans_le hlarge)
    have hunit : floorLog2 n + 1 - (53 : Int) ≤ unitExponent n := le_max_left _ _
    omega
  obtain ⟨r, -, -, -, hr⟩ := exists_mantissa hpos
  obtain ⟨e, he⟩ := Int.eq_ofNat_of_zero_le hexponent
  refine ⟨r * 2 ^ e, ?_⟩
  rw [hr, he, zpow_natCast]
  push_cast
  rfl

/-- How often a double goes into another is rounded once. -/
theorem floorDiv_eq {x y : Float} {p q : Rat} (hx : Stands x false p) (hy : Stands y false q) :
    Arithmetic.floorDiv x y = nearest (⌊p / q⌋ : Int) := by
  show ofReading ((Arithmetic.reading x).floorQuotient (Arithmetic.reading y)) = _
  rw [hx.reading_eq, hy.reading_eq]
  rfl

end Double

instance : Lengths Float Double.rounded where
  sub := Double.exists_stands_sub
  hypot := Double.exists_stands_hypot
  floorDiv {x y p q} hx hy hq hlt := by
    obtain ⟨n, hn⟩ := Int.eq_ofNat_of_zero_le (Int.floor_nonneg.2 (div_nonneg hx.nonneg hq.le))
    have hsmall : n < 2 ^ 53 := by omega
    have hkept : Double.rounded n = n := Double.isRounding_rounded.natCast hsmall
    have hstands := Double.stands_nearest (Nat.cast_nonneg n) (hkept.symm ▸ lt_overflowLimit hsmall le_rfl)
    rw [Double.floorDiv_eq hx hy, hn]
    rwa [hkept] at hstands
  floorDiv_large {x y p q} hx hy hq hlarge := by
    obtain ⟨n, hn⟩ := Int.eq_ofNat_of_zero_le (Int.floor_nonneg.2 (div_nonneg hx.nonneg hq.le))
    rw [hn] at hlarge ⊢
    rw [Double.floorDiv_eq hx hy, hn]
    have hle : ((2 : Rat) ^ 51) ≤ n := by exact_mod_cast hlarge
    have hnear := Double.isRounding_rounded.near (Nat.cast_nonneg (α := Rat) n)
    by_cases hlt : Double.rounded n < overflowLimit
    · obtain ⟨r, hr⟩ := Double.exists_rounded_natCast n
      have hstands := Double.stands_nearest (Nat.cast_nonneg n) hlt
      rw [hr] at hnear hstands
      refine .inr ⟨r, ?_, hstands⟩
      push_cast
      refine hnear.trans ?_
      rw [div_le_div_iff₀ (by norm_num) (by norm_num)]
      linarith
    · have hpos : (0 : Rat) < n := lt_of_lt_of_le (by norm_num) hle
      refine .inl ⟨Double.reading_nearest_of_large hpos (not_lt.1 hlt), (not_lt.1 hlt).trans ?_⟩
      push_cast
      have hupper := (abs_le.1 hnear).2
      linarith
  floorDiv_infinite {x y p} hx hy := by
    have hfloor : (Reading.finite false p).floorQuotient (.infinite false) = .ofInt 0 := by
      show Reading.ofInt (if p ≠ 0 ∧ (false = true ↔ 0 < p) then -1 else 0) = _
      rw [if_neg]
      rintro ⟨hne, hneg⟩
      exact absurd (hneg.2 (lt_of_le_of_ne hx.nonneg (Ne.symm hne))) (by decide)
    show Stands (Double.ofReading ((Arithmetic.reading x).floorQuotient (Arithmetic.reading y))) false 0
    rw [hx.reading_eq, hy]
    exact hfloor ▸ ⟨by decide +kernel, le_rfl⟩

end FeynmanTikz
