/-
Doubles are the exact results, rounded.

The machine keeps two bits after a mantissa while it shifts it to its place: the next one, and whether
anything follows that.  These two are enough to round once, and correctly.

* `extended`: the mantissa and the two bits of a distance, counted in some unit,
* `shiftRight_extended` and `roundedMantissa_extended`: shifting divides, and rounding is the nearest
  whole number,
* `unpacks_roundWithAccuracy`: what comes out is the distance, rounded,
* `Unpacks.neg`, `Unpacks.mul`, `Unpacks.div`: the operations on unpacked doubles,
* `stands_ofReading`, `stands_ofDecimal`: the conversions,
* `Rounds Float Double.rounded`: so doubles are an arithmetic that rounds.
-/
import FeynmanTikz.Proofs.Number.Unpacked

namespace FeynmanTikz

namespace Double

open Float.Model (Format UnpackedFloat totalExponent)
open Float.Model.UnpackedFloat
open Float.Model.UnpackedFloat.ExtendedMantissa (ofMantissaAndAccuracy)

/-! ### The mantissa and the two bits after it -/

/-- The mantissa of a distance that is counted in units of the last bit, the bit after it, and whether
anything follows that. -/
def extended (w : Rat) : ExtendedMantissa :=
  ⟨⌊w⌋₊, decide ((⌊w⌋₊ : Rat) + 1 / 2 ≤ w), decide (w ≠ ⌊w⌋₊ ∧ w ≠ ⌊w⌋₊ + 1 / 2)⟩

theorem extended_natCast (m : Nat) : ofMantissaAndAccuracy m .exact = extended m := by
  unfold extended
  rw [Nat.floor_natCast, decide_eq_false (by norm_num), decide_eq_false (by simp)]
  rfl

/-- The remainder of a quotient says where the quotient is between two whole numbers. -/
theorem extended_div (m : Nat) {d : Nat} (hd : 0 < d) :
    ofMantissaAndAccuracy (m / d) (accuracyOfFraction (m % d) d) = extended (m / d) := by
  have hd' : (0 : Rat) < d := by exact_mod_cast hd
  have hsplit : (m : Rat) / d = (m / d : Nat) + (m % d : Nat) / d := by
    rw [div_eq_iff hd'.ne', add_mul, div_mul_cancel₀ _ hd'.ne']
    exact_mod_cast (Nat.div_add_mod' m d).symm
  have hlt : m % d < d := Nat.mod_lt m hd
  rw [hsplit]
  generalize m / d = k
  generalize m % d = r at hlt
  by_cases hr : r = 0
  · rw [hr, Nat.cast_zero, zero_div, add_zero, ← extended_natCast]
    rfl
  · have hpos : 0 < (r : Rat) / d := div_pos (by exact_mod_cast Nat.pos_of_ne_zero hr) hd'
    have hone : (r : Rat) / d < 1 := (div_lt_one hd').2 (by exact_mod_cast hlt)
    have hfloor : ⌊(k : Rat) + (r : Rat) / d⌋₊ = k :=
      (Nat.floor_eq_iff (by positivity)).2 ⟨by linarith, by linarith⟩
    unfold extended accuracyOfFraction
    rw [hfloor, if_neg hr]
    rcases lt_trichotomy (2 * r) d with h | h | h
    · have hhalf : (r : Rat) / d < 1 / 2 := by
        rw [div_lt_div_iff₀ hd' two_pos]
        exact_mod_cast (by omega : r * 2 < 1 * d)
      rw [compare_lt_iff_lt.2 h, decide_eq_false (by linarith), decide_eq_true]
      · rfl
      · exact ⟨by linarith, by linarith⟩
    · have hhalf : (r : Rat) / d = 1 / 2 := by
        rw [div_eq_div_iff hd'.ne' two_ne_zero]
        exact_mod_cast (by omega : r * 2 = 1 * d)
      rw [compare_eq_iff_eq.2 h, decide_eq_true (by linarith), decide_eq_false]
      · rfl
      · exact fun hne => hne.2 (by rw [hhalf])
    · have hhalf : 1 / 2 < (r : Rat) / d := by
        rw [div_lt_div_iff₀ two_pos hd']
        exact_mod_cast (by omega : 1 * d < r * 2)
      rw [compare_gt_iff_gt.2 h, decide_eq_true (by linarith), decide_eq_true]
      · rfl
      · exact ⟨by linarith, by linarith⟩

theorem shiftRightOne_extended {w : Rat} (hw : 0 ≤ w) : (extended w).shiftRightOne = extended (w / 2) := by
  have hle := Nat.floor_le hw
  have hlt := Nat.lt_floor_add_one w
  have hhalf : ⌊w / 2⌋₊ = ⌊w⌋₊ / 2 := Nat.floor_div_ofNat w 2
  unfold extended ExtendedMantissa.shiftRightOne
  dsimp only
  rw [hhalf]
  generalize ⌊w⌋₊ = n at *
  have hrest : (decide ((n : Rat) + 1 / 2 ≤ w) || decide (w ≠ n ∧ w ≠ n + 1 / 2)) = decide (w ≠ n) := by
    rw [← Bool.decide_or]
    refine decide_eq_decide.2 ⟨?_, fun h => ?_⟩
    · rintro (h | h)
      · linarith
      · exact h.1
    · by_cases hmid : w = n + 1 / 2
      · exact .inl hmid.ge
      · exact .inr ⟨h, hmid⟩
  rw [hrest]
  obtain ⟨k, rfl | rfl⟩ := n.even_or_odd'
  · push_cast at hle hlt ⊢
    have hround : ¬(k : Rat) + 1 / 2 ≤ w / 2 := by linarith
    have hsticky : w ≠ 2 * k ↔ w / 2 ≠ k ∧ w / 2 ≠ k + 1 / 2 :=
      ⟨fun h => ⟨fun heq => h (by linarith), fun heq => by linarith⟩, fun h heq => h.1 (by linarith)⟩
    rw [show 2 * k / 2 = k by omega, show 2 * k % 2 = 0 by omega, decide_eq_false hround,
      decide_eq_decide.2 hsticky]
    rfl
  · push_cast at hle hlt ⊢
    have hround : (k : Rat) + 1 / 2 ≤ w / 2 := by linarith
    have hsticky : w ≠ 2 * k + 1 ↔ w / 2 ≠ k ∧ w / 2 ≠ k + 1 / 2 :=
      ⟨fun h => ⟨fun heq => by linarith, fun heq => h (by linarith)⟩, fun h heq => h.2 (by linarith)⟩
    rw [show (2 * k + 1) / 2 = k by omega, show (2 * k + 1) % 2 = 1 by omega, decide_eq_true hround,
      decide_eq_decide.2 hsticky]
    rfl

theorem shiftRight_extended {w : Rat} (hw : 0 ≤ w) (k : Nat) : extended w >>> k = extended (w / 2 ^ k) := by
  show k.repeat ExtendedMantissa.shiftRightOne (extended w) = _
  induction k with
  | zero => rw [pow_zero, div_one]; rfl
  | succ k ih =>
    rw [Nat.repeat, ih, shiftRightOne_extended (by positivity), div_div, ← pow_succ]

theorem roundedMantissa_extended {w : Rat} (hw : 0 ≤ w) :
    (extended w).roundedMantissa = (nearestInt w).toNat := by
  have hfloor : w.floor = (⌊w⌋₊ : Int) := by
    rw [Int.natCast_floor_eq_floor hw]
    rfl
  have hle := Nat.floor_le hw
  have hlt := Nat.lt_floor_add_one w
  unfold nearestInt extended
  rw [hfloor]
  generalize ⌊w⌋₊ = n at *
  dsimp only
  push_cast
  rcases lt_trichotomy (w - n) (1 / 2) with h | h | h
  · rw [if_pos h, decide_eq_false (by linarith)]
    by_cases hexact : w = n
    · rw [decide_eq_false (fun hne => hne.1 hexact)]
      rfl
    · rw [decide_eq_true ⟨hexact, by linarith⟩]
      rfl
  · rw [if_neg h.ge.not_gt, if_neg h.le.not_gt, decide_eq_true (by linarith), decide_eq_false]
    · show n + n % 2 = _
      omega
    · exact fun hne => hne.2 (by linarith)
  · rw [if_neg h.le.not_gt, if_pos h, decide_eq_true (by linarith), decide_eq_true]
    · rfl
    · exact ⟨by linarith, by linarith⟩

/-! ### Rounding once -/

theorem targetExponent_eq (t : Int) : Format.binary64.targetExponent t = max (t - 53) minExponent := rfl

/-- The leading bit of a distance is that of its whole part. -/
theorem floorLog2_mul_two_zpow {w : Rat} (e : Int) (hw : ⌊w⌋₊ ≠ 0) :
    floorLog2 (w * (2 : Rat) ^ e) = ⌊w⌋₊.log2 + e := by
  have hle : (⌊w⌋₊ : Rat) ≤ w := Nat.floor_le (Nat.pos_of_floor_pos (Nat.pos_of_ne_zero hw)).le
  have habove : w < (2 : Rat) ^ ((⌊w⌋₊.log2 : Int) + 1) := by
    have hnext : ⌊w⌋₊ + 1 ≤ 2 ^ (⌊w⌋₊.log2 + 1) := Nat.lt_log2_self
    refine (Nat.lt_floor_add_one w).trans_le ?_
    rw [show ((⌊w⌋₊.log2 : Int) + 1) = ((⌊w⌋₊.log2 + 1 : Nat) : Int) by push_cast; rfl, zpow_natCast]
    exact_mod_cast hnext
  refine floorLog2_eq ?_ ?_
  · rw [zpow_add₀ (by norm_num)]
    exact mul_le_mul_of_nonneg_right ((log2_spec hw).1.trans hle) (two_zpow_pos e).le
  · rw [show (⌊w⌋₊.log2 : Int) + e + 1 = ⌊w⌋₊.log2 + 1 + e by ring, zpow_add₀ (by norm_num)]
    exact mul_lt_mul_of_pos_right habove (two_zpow_pos e)

/-- A mantissa that has bits enough is shifted to the unit of its distance. -/
theorem targetExponent_floor {w : Rat} {e : Int} (hw : 0 < w) (he : e ≤ unitExponent (w * (2 : Rat) ^ e)) :
    Format.binary64.targetExponent (totalExponent ⌊w⌋₊ e) = unitExponent (w * (2 : Rat) ^ e) := by
  have hbits : (mantissaBits : Int) = 53 := rfl
  rw [targetExponent_eq]
  unfold totalExponent
  unfold unitExponent at he ⊢
  rw [hbits] at he ⊢
  by_cases hzero : ⌊w⌋₊ = 0
  · -- All bits of the mantissa are below the unit, so this is the least one.
    have hlt : w < 1 := Nat.floor_eq_zero.1 hzero
    have hlog : floorLog2 (w * (2 : Rat) ^ e) < e := by
      refine floorLog2_lt (mul_pos hw (two_zpow_pos e)) ?_
      calc w * (2 : Rat) ^ e < 1 * 2 ^ e := mul_lt_mul_of_pos_right hlt (two_zpow_pos e)
        _ = 2 ^ e := one_mul _
    rw [hzero]
    show max (0 + 1 + e - 53) minExponent = _
    omega
  · rw [floorLog2_mul_two_zpow e hzero]
    omega

/-- Shifting to the unit keeps what is needed to round. -/
theorem shiftToTargetExponent_extended {w : Rat} {e : Int} {m : Nat} {accuracy : Accuracy} (hw : 0 < w)
    (hm : ofMantissaAndAccuracy m accuracy = extended w) (he : e ≤ unitExponent (w * (2 : Rat) ^ e)) :
    shiftToTargetExponent Format.binary64 m e accuracy =
      (extended (w * (2 : Rat) ^ e / (2 : Rat) ^ unitExponent (w * (2 : Rat) ^ e)),
        unitExponent (w * (2 : Rat) ^ e)) := by
  have hfloor : m = ⌊w⌋₊ := by
    have hmantissa := congrArg ExtendedMantissa.mantissa hm
    rw [← show (extended w).mantissa = ⌊w⌋₊ from rfl, ← hmantissa]
    rcases accuracy with _ | (_ | _ | _) <;> rfl
  unfold shiftToTargetExponent shiftToExponent
  rw [hm, hfloor, targetExponent_floor hw he]
  generalize unitExponent (w * (2 : Rat) ^ e) = u at he
  dsimp only
  have hshift : e + ((u - e).toNat : Int) = u := by omega
  have hdiv : w * (2 : Rat) ^ e / (2 : Rat) ^ u = w / 2 ^ (u - e).toNat := by
    nth_rewrite 1 [← hshift]
    rw [zpow_add₀ (by norm_num), zpow_natCast]
    have hne := (two_zpow_pos e).ne'
    field_simp
  rw [shiftRight_extended hw.le, hshift, hdiv]

/-- A mantissa that has been rounded up may have one bit more.  It is shifted once again, which loses
nothing. -/
def carried (r : Nat) (e : Int) : Nat × Int := if r = 2 ^ 53 then (2 ^ 52, e + 1) else (r, e)

theorem isCanonical_carried {r : Nat} {e : Int} (hr : r ≤ 2 ^ 53) (he : minExponent ≤ e)
    (hl : 2 ^ 52 ≤ r ∨ e = minExponent) : IsCanonical (carried r e).1 (carried r e).2 := by
  unfold carried
  split
  · exact ⟨by norm_num, by dsimp only; omega, .inl le_rfl⟩
  · exact ⟨by dsimp only; omega, he, hl⟩

theorem carried_value (r : Nat) (e : Int) :
    (carried r e).1 * (2 : Rat) ^ (carried r e).2 = r * (2 : Rat) ^ e := by
  unfold carried
  split
  · rename_i hr
    rw [hr]
    dsimp only
    rw [two_zpow_succ]
    push_cast
    ring
  · rfl

theorem shiftToTargetExponent_carried {r : Nat} {e : Int} (hr : r ≤ 2 ^ 53) (he : minExponent ≤ e) :
    shiftToTargetExponent Format.binary64 r e .exact =
      (extended ((carried r e).1 : Nat), (carried r e).2) := by
  have hmin : minExponent = -1074 := rfl
  unfold shiftToTargetExponent shiftToExponent carried
  rw [targetExponent_eq, extended_natCast]
  unfold totalExponent
  dsimp only
  rcases hr.lt_or_eq with hlt | rfl
  · have hlog : r.log2 < 53 := by
      rcases Nat.eq_zero_or_pos r with rfl | hpos
      · decide
      · exact (Nat.log2_lt hpos.ne').2 hlt
    have hshift : (max ((r.log2 : Int) + 1 + e - 53) minExponent - e).toNat = 0 := by omega
    rw [hshift, if_neg hlt.ne, Nat.cast_zero, add_zero]
    rfl
  · have hlog : ((2 ^ 53 : Nat).log2 : Int) = 53 := by
      rw [Nat.log2_two_pow]
      rfl
    have hshift : (max (((2 ^ 53 : Nat).log2 : Int) + 1 + e - 53) minExponent - e).toNat = 1 := by omega
    have hhalf : ((2 ^ 53 : Nat) : Rat) / 2 ^ 1 = (2 ^ 52 : Nat) := by norm_num
    rw [hshift, shiftRight_extended (Nat.cast_nonneg _), hhalf, if_pos rfl]
    rfl

/-- What is rounded has become canonical. -/
theorem unpacks_roundWithAccuracy (n : Bool) {w : Rat} {e : Int} {m : Nat} {accuracy : Accuracy}
    (hw : 0 < w) (hm : ofMantissaAndAccuracy m accuracy = extended w)
    (he : e ≤ unitExponent (w * (2 : Rat) ^ e)) :
    Unpacks (roundWithAccuracy Format.binary64 (signOf n) m e accuracy) n (rounded (w * (2 : Rat) ^ e)) := by
  have hq : 0 < w * (2 : Rat) ^ e := mul_pos hw (two_zpow_pos e)
  have hshift := shiftToTargetExponent_extended hw hm he
  generalize w * (2 : Rat) ^ e = q at *
  obtain ⟨r, hr, hbound, hleading, hvalue⟩ := exists_mantissa hq
  have hround : (extended (q / (2 : Rat) ^ unitExponent q)).roundedMantissa = r := by
    rw [roundedMantissa_extended (div_pos hq (two_zpow_pos _)).le, hr, Int.toNat_natCast]
  refine ⟨(carried r (unitExponent q)).1, (carried r (unitExponent q)).2, ?_,
    isCanonical_carried hbound (minExponent_le_unit q) hleading, by rw [hvalue, carried_value]⟩
  unfold roundWithAccuracy
  rw [hshift]
  dsimp only
  rw [hround]
  show unpacked n (shiftToTargetExponent Format.binary64 r (unitExponent q) .exact).1.mantissa
    (shiftToTargetExponent Format.binary64 r (unitExponent q) .exact).2 = _
  rw [shiftToTargetExponent_carried hbound (minExponent_le_unit q)]
  exact congrArg (unpacked n · _) (Nat.floor_natCast _)

/-! ### The operations -/

theorem unpacks_zero {s : Sign} {n : Bool} (hs : s = signOf n) : Unpacks (.zero s) n 0 := by
  rw [hs]
  exact ⟨0, minExponent, rfl, ⟨by norm_num, le_rfl, .inr rfl⟩, by norm_num⟩

theorem unpacks_finite {s : Sign} {n : Bool} {m : Nat} {e : Int} (hs : s = signOf n) (hm : 0 < m)
    (hc : IsCanonical m e) : Unpacks (.finite s m e hm) n (m * (2 : Rat) ^ e) := by
  rw [hs]
  exact ⟨m, e, finite_eq_unpacked n e hm, hc, rfl⟩

/-- An unpacked double is a zero, or it has a mantissa. -/
theorem Unpacks.cases {u : UnpackedFloat} {n : Bool} {q : Rat} (h : Unpacks u n q) :
    (u = .zero (signOf n) ∧ q = 0) ∨ ∃ m e, ∃ hm : 0 < m, u = .finite (signOf n) m e hm ∧
      IsCanonical m e ∧ q = m * (2 : Rat) ^ e := by
  obtain ⟨m, e, rfl, hc, rfl⟩ := h
  rcases Nat.eq_zero_or_pos m with rfl | hm
  · exact .inl ⟨rfl, by rw [Nat.cast_zero, zero_mul]⟩
  · exact .inr ⟨m, e, hm, (finite_eq_unpacked n e hm).symm, hc, rfl⟩

theorem neg_signOf (n : Bool) : -signOf n = signOf (!n) := by cases n <;> rfl

theorem signOf_mul (n n' : Bool) : signOf n * signOf n' = signOf (n != n') := by
  cases n <;> cases n' <;> rfl

theorem signOf_div (n n' : Bool) : signOf n / signOf n' = signOf (n != n') := by
  cases n <;> cases n' <;> rfl

theorem Unpacks.neg {u : UnpackedFloat} {n : Bool} {q : Rat} (h : Unpacks u n q) :
    Unpacks u.neg (!n) q := by
  rcases h.cases with ⟨rfl, rfl⟩ | ⟨m, e, hm, rfl, hc, rfl⟩
  · exact unpacks_zero (neg_signOf n)
  · exact unpacks_finite (neg_signOf n) hm hc

/-- The product of two mantissas has bits enough. -/
theorem add_le_unit {m₁ m₂ : Nat} {e₁ e₂ : Int} (h₁ : IsCanonical m₁ e₁) (h₂ : IsCanonical m₂ e₂)
    (hm₁ : 0 < m₁) (hm₂ : 0 < m₂) : e₁ + e₂ ≤ unitExponent ((m₁ * m₂ : Nat) * (2 : Rat) ^ (e₁ + e₂)) := by
  have hlarge (h : 2 ^ 52 ≤ m₁ * m₂) :
      e₁ + e₂ ≤ unitExponent ((m₁ * m₂ : Nat) * (2 : Rat) ^ (e₁ + e₂)) := by
    have hlog : (52 : Int) + (e₁ + e₂) ≤ floorLog2 ((m₁ * m₂ : Nat) * (2 : Rat) ^ (e₁ + e₂)) := by
      refine le_floorLog2 ?_
      rw [zpow_add₀ (by norm_num) 52]
      exact mul_le_mul_of_nonneg_right (by exact_mod_cast h) (two_zpow_pos _).le
    refine le_max_of_le_left ?_
    show e₁ + e₂ ≤ _ + 1 - (53 : Int)
    omega
  rcases h₁.leading with hl₁ | rfl
  · exact hlarge (hl₁.trans (Nat.le_mul_of_pos_right m₁ hm₂))
  · rcases h₂.leading with hl₂ | rfl
    · exact hlarge (hl₂.trans (Nat.le_mul_of_pos_left m₂ hm₁))
    · exact le_trans (by decide) (minExponent_le_unit _)

theorem Unpacks.mul {u v : UnpackedFloat} {n n' : Bool} {p q : Rat} (hu : Unpacks u n p)
    (hv : Unpacks v n' q) :
    Unpacks (UnpackedFloat.mul Format.binary64 u v) (n != n') (rounded (p * q)) := by
  rcases hu.cases with ⟨rfl, rfl⟩ | ⟨m₁, e₁, hm₁, rfl, hc₁, rfl⟩
  · rw [zero_mul, rounded_zero]
    rcases hv.cases with ⟨rfl, rfl⟩ | ⟨m₂, e₂, hm₂, rfl, hc₂, rfl⟩
    · exact unpacks_zero (signOf_mul n n')
    · exact unpacks_zero (signOf_mul n n')
  · rcases hv.cases with ⟨rfl, rfl⟩ | ⟨m₂, e₂, hm₂, rfl, hc₂, rfl⟩
    · rw [mul_zero, rounded_zero]
      exact unpacks_zero (signOf_mul n n')
    · have hround := unpacks_roundWithAccuracy (n != n')
        (by exact_mod_cast Nat.mul_pos hm₁ hm₂) (extended_natCast (m₁ * m₂)) (add_le_unit hc₁ hc₂ hm₁ hm₂)
      rw [← signOf_mul] at hround
      have hvalue : (m₁ * (2 : Rat) ^ e₁) * (m₂ * (2 : Rat) ^ e₂) =
          (m₁ * m₂ : Nat) * (2 : Rat) ^ (e₁ + e₂) := by
        rw [zpow_add₀ (by norm_num)]
        push_cast
        ring
      rw [hvalue]
      exact hround

/-- The quotient of two mantissas has bits enough, where the first one is shifted as far as the machine
does. -/
theorem le_unit_of_le_target {m₁ m₂ : Nat} {e₁ e₂ t : Int} (hm₁ : 0 < m₁) (hm₂ : 0 < m₂)
    (ht : t ≤ Format.binary64.targetExponent (totalExponent m₁ e₁ - totalExponent m₂ e₂)) :
    t ≤ unitExponent (m₁ * (2 : Rat) ^ e₁ / (m₂ * (2 : Rat) ^ e₂)) := by
  have hm : (0 : Rat) < m₂ * 2 ^ e₂ := mul_pos (by exact_mod_cast hm₂) (two_zpow_pos e₂)
  have hlog : (m₁.log2 + e₁ : Int) - (m₂.log2 + 1 + e₂) ≤
      floorLog2 (m₁ * (2 : Rat) ^ e₁ / (m₂ * (2 : Rat) ^ e₂)) := by
    refine le_floorLog2 ((le_div_iff₀ hm).2 ?_)
    calc (2 : Rat) ^ ((m₁.log2 + e₁ : Int) - (m₂.log2 + 1 + e₂)) * (m₂ * 2 ^ e₂)
        ≤ 2 ^ ((m₁.log2 + e₁ : Int) - (m₂.log2 + 1 + e₂)) * (2 ^ ((m₂.log2 : Int) + 1) * 2 ^ e₂) := by
          refine mul_le_mul_of_nonneg_left ?_ (two_zpow_pos _).le
          exact mul_le_mul_of_nonneg_right (log2_spec hm₂.ne').2.le (two_zpow_pos _).le
      _ = 2 ^ (m₁.log2 : Int) * 2 ^ e₁ := by
          rw [← zpow_add₀ (by norm_num), ← zpow_add₀ (by norm_num), ← zpow_add₀ (by norm_num)]
          congr 1
          ring
      _ ≤ m₁ * 2 ^ e₁ := mul_le_mul_of_nonneg_right (log2_spec hm₁.ne').1 (two_zpow_pos _).le
  rw [targetExponent_eq] at ht
  unfold totalExponent at ht
  unfold unitExponent
  rw [show (mantissaBits : Int) = 53 from rfl]
  omega

/-- A quotient in the unit to which its first mantissa is shifted. -/
theorem shiftLeft_div_mul_two_zpow (m₁ : Nat) {m₂ : Nat} {e₁ e₂ t : Int} (hm₂ : 0 < m₂) (ht : t ≤ e₁ - e₂) :
    m₁ * (2 : Rat) ^ e₁ / (m₂ * (2 : Rat) ^ e₂) =
      (m₁ <<< (e₁ - e₂ - t).toNat : Nat) / m₂ * (2 : Rat) ^ t := by
  have hm₂' : (0 : Rat) < m₂ := by exact_mod_cast hm₂
  have hexponent : e₁ = ((e₁ - e₂ - t).toNat : Int) + t + e₂ := by omega
  have hne := (two_zpow_pos e₂).ne'
  rw [Nat.shiftLeft_eq]
  generalize (e₁ - e₂ - t).toNat = k at hexponent
  rw [hexponent, zpow_add₀ (by norm_num), zpow_add₀ (by norm_num), zpow_natCast]
  push_cast
  field_simp

theorem Unpacks.div {u v : UnpackedFloat} {n n' : Bool} {p q : Rat} (hu : Unpacks u n p)
    (hv : Unpacks v n' q) (hq : q ≠ 0) :
    Unpacks (UnpackedFloat.div Format.binary64 u v) (n != n') (rounded (p / q)) := by
  rcases hv.cases with ⟨rfl, rfl⟩ | ⟨m₂, e₂, hm₂, rfl, hc₂, rfl⟩
  · exact absurd rfl hq
  rcases hu.cases with ⟨rfl, rfl⟩ | ⟨m₁, e₁, hm₁, rfl, hc₁, rfl⟩
  · rw [zero_div, rounded_zero]
    exact unpacks_zero (signOf_div n n')
  · show Unpacks (roundWithAccuracy Format.binary64 (signOf n / signOf n')
      (divCore Format.binary64 m₁ e₁ m₂ e₂).1 (divCore Format.binary64 m₁ e₁ m₂ e₂).2.1
      (divCore Format.binary64 m₁ e₁ m₂ e₂).2.2) _ _
    unfold divCore
    dsimp only
    have ht := min_le_right (e₁ - e₂)
      (Format.binary64.targetExponent (totalExponent m₁ e₁ - totalExponent m₂ e₂))
    have ht' := min_le_left (e₁ - e₂)
      (Format.binary64.targetExponent (totalExponent m₁ e₁ - totalExponent m₂ e₂))
    generalize min (e₁ - e₂)
      (Format.binary64.targetExponent (totalExponent m₁ e₁ - totalExponent m₂ e₂)) = t at ht ht' ⊢
    have hpos : 0 < ((m₁ <<< (e₁ - e₂ - t).toNat : Nat) : Rat) / m₂ := by
      refine div_pos ?_ (by exact_mod_cast hm₂)
      rw [Nat.shiftLeft_eq]
      exact_mod_cast Nat.mul_pos hm₁ (Nat.two_pow_pos _)
    have hunit := le_unit_of_le_target hm₁ hm₂ ht
    rw [shiftLeft_div_mul_two_zpow m₁ hm₂ ht'] at hunit ⊢
    rw [signOf_div]
    exact unpacks_roundWithAccuracy (n != n') hpos (extended_div _ hm₂) hunit

/-! ### The conversions -/

/-- Mantissa and exponent are added in the bits of a double. -/
theorem mantissaExponent_add {m : Nat} {e : Int} (hc : IsCanonical m e) (he : e < 972) :
    (e - minExponent).toNat * leadingBit + m < infinityBits ∧
      mantissaExponent ((e - minExponent).toNat * leadingBit + m) = (m, e) := by
  have hinf : infinityBits = 2047 * 2 ^ 52 := rfl
  have hmin : minExponent = -1074 := rfl
  have hm := hc.lt
  have hle := hc.le_exponent
  unfold mantissaExponent
  rw [leadingBit_eq, hinf]
  dsimp only
  by_cases hl : 2 ^ 52 ≤ m
  · have hexponent : ((e - minExponent).toNat * 2 ^ 52 + m) / 2 ^ 52 % 2048 = (e - minExponent).toNat + 1 := by
      omega
    have hmantissa : ((e - minExponent).toNat * 2 ^ 52 + m) % 2 ^ 52 = m - 2 ^ 52 := by omega
    rw [hexponent, hmantissa, if_neg (by omega)]
    exact ⟨by omega, Prod.ext (by dsimp only; omega) (by dsimp only; omega)⟩
  · have hexponent : ((e - minExponent).toNat * 2 ^ 52 + m) / 2 ^ 52 % 2048 = 0 := by
      have := hc.leading.resolve_left hl
      omega
    have hmantissa : ((e - minExponent).toNat * 2 ^ 52 + m) % 2 ^ 52 = m := by omega
    rw [hexponent, hmantissa, if_pos rfl, ← hc.leading.resolve_left hl]
    exact ⟨by omega, rfl⟩

/-- A mantissa may carry into the exponent. -/
theorem bits_carried {r : Nat} {e : Int} (he : minExponent ≤ e) :
    (e - minExponent).toNat * leadingBit + r =
      ((carried r e).2 - minExponent).toNat * leadingBit + (carried r e).1 := by
  unfold carried
  split
  · rename_i hr
    rw [hr, leadingBit_eq]
    dsimp only
    omega
  · rfl

/-- The double made from a distance is the nearest one. -/
theorem stands_ofReading (n : Bool) {q : Rat} (hq : 0 ≤ q) (hlt : rounded q < overflowLimit) :
    Stands (ofReading (.finite n (signed n q))) n (rounded q) := by
  show Stands (ofMagnitude n (if signed n q = 0 then 0 else nearestBits (signed n q).abs)) n _
  rw [abs_signed hq]
  rcases hq.eq_or_lt with rfl | hpos
  · have hzero := stands_ofMagnitude n (show 0 < infinityBits by decide)
    rw [show (mantissaExponent 0).1 = 0 from rfl, Nat.cast_zero, zero_mul] at hzero
    rwa [if_pos (by cases n <;> rfl)]
  · have hne : signed n q ≠ 0 := by
      cases n with
      | true => exact neg_ne_zero.2 hpos.ne'
      | false => exact hpos.ne'
    obtain ⟨r, hr, hbound, hleading, hvalue⟩ := exists_mantissa hpos
    have hc := isCanonical_carried hbound (minExponent_le_unit q) hleading
    have hcarried := carried_value r (unitExponent q)
    rw [hvalue, ← hcarried] at hlt
    obtain ⟨hinf, hbits⟩ := mantissaExponent_add hc (hc.exponent_lt hlt)
    have hnearest : nearestBits q = ((carried r (unitExponent q)).2 - minExponent).toNat * leadingBit +
        (carried r (unitExponent q)).1 := by
      show min ((unitExponent q - minExponent).toNat * leadingBit +
        (nearestInt (q / (2 : Rat) ^ unitExponent q)).toNat) infinityBits = _
      rw [hr, Int.toNat_natCast, bits_carried (minExponent_le_unit q)]
      exact min_eq_left hinf.le
    rw [if_neg hne, hnearest, hvalue, ← hcarried]
    have hstands := stands_ofMagnitude n hinf
    rwa [hbits] at hstands

theorem stands_nearest {q : Rat} (hq : 0 ≤ q) (hlt : rounded q < overflowLimit) :
    Stands (nearest q) false (rounded q) := by
  have hsign : Reading.ofRat q = .finite false (signed false q) := by
    unfold Reading.ofRat
    rw [decide_eq_false (not_lt.2 hq)]
    rfl
  unfold nearest
  rw [hsign]
  exact stands_ofReading false hq hlt

/-- The digits of a number say between which powers of ten it is. -/
theorem length_decimalDigits {m : Nat} (hm : m ≠ 0) :
    (10 : Rat) ^ (((decimalDigits m).length : Int) - 1) ≤ m ∧ (m : Rat) < 10 ^ ((decimalDigits m).length : Int) := by
  have hlength (k : Nat) (hk : 0 < k) : (decimalDigits m).length ≤ k ↔ m < 10 ^ k :=
    Nat.length_toDigits_le_iff (by norm_num) hk
  have hpos : 0 < (decimalDigits m).length := Nat.length_toDigits_pos
  generalize (decimalDigits m).length = len at *
  constructor
  · obtain ⟨k, rfl⟩ := Nat.exists_eq_add_of_lt hpos
    rw [show ((0 + k + 1 : Nat) : Int) - 1 = (k : Int) by push_cast; ring, zpow_natCast]
    rcases Nat.eq_zero_or_pos k with rfl | hk
    · rw [pow_zero]
      exact_mod_cast Nat.pos_of_ne_zero hm
    · have hle : 10 ^ k ≤ m := not_lt.1 fun hlt => by
        have := (hlength k hk).2 hlt
        omega
      exact_mod_cast hle
  · rw [zpow_natCast]
    exact_mod_cast (hlength len hpos).1 le_rfl

theorem le_ten_zpow {k : Int} (hk : 0 ≤ k) : (2 : Rat) ^ (3 * k) ≤ (10 : Rat) ^ k := by
  rw [zpow_mul]
  exact zpow_le_zpow_left₀ hk (by norm_num) (by norm_num)

theorem ten_zpow_le {k : Int} (hk : k ≤ 0) : (10 : Rat) ^ k ≤ (2 : Rat) ^ (3 * k) := by
  have h := inv_anti₀ (two_zpow_pos _) (le_ten_zpow (neg_nonneg.2 hk))
  rwa [← zpow_neg, ← zpow_neg, neg_neg, show -(3 * -k) = 3 * k by ring] at h

theorem stands_ofDecimal {m : Nat} {e : Int} (hlt : rounded (m * (10 : Rat) ^ e) < overflowLimit) :
    Stands (ofDecimal m e) false (rounded (m * (10 : Rat) ^ e)) := by
  have hten : (0 : Rat) < (10 : Rat) ^ e := zpow_pos (by norm_num) e
  have hq : 0 ≤ m * (10 : Rat) ^ e := mul_nonneg (Nat.cast_nonneg m) hten.le
  unfold ofDecimal
  by_cases hm : m = 0
  · rw [if_pos hm]
    rw [hm, Nat.cast_zero, zero_mul] at hlt ⊢
    exact stands_nearest le_rfl hlt
  · obtain ⟨hlow, hhigh⟩ := length_decimalDigits hm
    have hrange : decimalRange = 400 := rfl
    rw [if_neg hm]
    dsimp only
    split
    · rename_i hsmall
      have htiny : m * (10 : Rat) ^ e < (2 : Rat) ^ (minExponent - 1) := by
        have hmin : minExponent = -1074 := rfl
        calc m * (10 : Rat) ^ e < 10 ^ ((decimalDigits m).length : Int) * 10 ^ e :=
              mul_lt_mul_of_pos_right hhigh hten
          _ = 10 ^ (((decimalDigits m).length : Int) + e) := (zpow_add₀ (by norm_num) _ _).symm
          _ ≤ 2 ^ (3 * (((decimalDigits m).length : Int) + e)) := ten_zpow_le (by omega)
          _ ≤ 2 ^ (minExponent - 1) := two_zpow_le (by omega)
      rw [rounded_eq_zero hq htiny, ← rounded_zero]
      exact stands_nearest le_rfl (by rw [rounded_zero]; exact two_zpow_pos 1024)
    · split
      · rename_i hlarge
        refine absurd hlt (not_lt.2 (overflowLimit_le_rounded ?_))
        calc (2 : Rat) ^ (1025 : Int)
            ≤ 2 ^ (3 * (((decimalDigits m).length : Int) - 1 + e)) := two_zpow_le (by omega)
          _ ≤ 10 ^ (((decimalDigits m).length : Int) - 1 + e) := le_ten_zpow (by omega)
          _ = 10 ^ (((decimalDigits m).length : Int) - 1) * 10 ^ e := zpow_add₀ (by norm_num) _ _
          _ ≤ m * 10 ^ e := mul_le_mul_of_nonneg_right hlow hten.le
      · exact stands_nearest hq hlt

end Double

instance : Rounds Float Double.rounded where
  isRounding := Double.isRounding_rounded
  exists_stands _ h := Double.exists_stands h
  neg h := by
    obtain ⟨hu, hlt⟩ := Double.unpacks_of_stands h
    exact hu.neg.stands hlt
  mul hx hy hlt := ((Double.unpacks_of_stands hx).1.mul (Double.unpacks_of_stands hy).1).stands hlt
  div hx hy hq hlt := ((Double.unpacks_of_stands hx).1.div (Double.unpacks_of_stands hy).1 hq).stands hlt
  ofDecimal := Double.stands_ofDecimal
  ofReading hq hlt := Double.stands_ofReading _ hq hlt

end FeynmanTikz
