/-
Doubles taken apart: what the bits of a double say, and which numbers have bits that say so.

The operations on doubles are made on unpacked ones, which are a sign, a mantissa and an exponent.

* `unpackedReading`: what an unpacked double stands for, and `reading_eq`: this is the reading of its
  bits,
* `IsCanonical`: the mantissas and exponents that are unpacked from bits,
* `unpacks_of_stands`: a finite double is one of them,
* `unpack_pack_unpacked`: what is canonical and not too large is kept when it is packed,
* `stands_ofMagnitude`: a mantissa and an exponent may be added to the bits, and carry by themselves.

Design notes.
* A zero has no mantissa and no exponent of its own.  `unpacked` takes any exponent for it, so that no
  statement needs a case for it.
-/
import FeynmanTikz.Proofs.Number.Opposites
import FeynmanTikz.Proofs.Number.Rounding

namespace FeynmanTikz

namespace Double

open Float.Model (Format UnpackedFloat)
open Float.Model.UnpackedFloat

/-! ### What the bits say -/

theorem leadingBit_eq : leadingBit = 2 ^ 52 := rfl

theorem signBit_eq : signBit = 2 ^ 63 := rfl

theorem toNat_unpackMantissa (b : BitVec Format.binary64.numBits) :
    (unpackMantissa b).toNat = b.toNat % leadingBit := by
  show (BitVec.extractLsb 51 0 b).toNat = _
  rw [BitVec.extractLsb_toNat]
  rfl

theorem toNat_unpackExponent (b : BitVec Format.binary64.numBits) :
    (unpackExponent b).toNat = b.toNat / leadingBit % 2048 := by
  show (BitVec.extractLsb 62 52 b).toNat = _
  rw [BitVec.extractLsb_toNat, Nat.shiftRight_eq_div_pow]
  rfl

theorem toNat_unpackSign (b : BitVec Format.binary64.numBits) :
    (unpackSign b).toNat = b.toNat / signBit := by
  show (BitVec.extractLsb 63 63 b).toNat = _
  rw [BitVec.extractLsb_toNat, Nat.shiftRight_eq_div_pow, signBit_eq]
  have hlt : b.toNat < 2 ^ 64 := b.isLt
  show b.toNat / 2 ^ 63 % 2 = b.toNat / 2 ^ 63
  omega

/-- Whether a sign is the negative one. -/
def isNegative : Sign → Bool
  | .negative => true
  | .positive => false

/-- The sign of the bits of a number. -/
def signOf : Bool → Sign
  | true => .negative
  | false => .positive

@[simp] theorem isNegative_signOf (n : Bool) : isNegative (signOf n) = n := by cases n <;> rfl

theorem ofBitVec_unpackSign (b : BitVec Format.binary64.numBits) :
    Sign.ofBitVec (unpackSign b) = signOf (decide (signBit ≤ b.toNat)) := by
  have h := toNat_unpackSign b
  have hlt : b.toNat < 2 ^ 64 := b.isLt
  rw [signBit_eq] at h ⊢
  rcases BitVec.eq_zero_or_eq_one (unpackSign b) with hz | hz
  · rw [hz] at h ⊢
    have h : 0 = b.toNat / 2 ^ 63 := h
    rw [decide_eq_false (by omega)]
    rfl
  · rw [hz] at h ⊢
    have h : 1 = b.toNat / 2 ^ 63 := h
    rw [decide_eq_true (by omega)]
    rfl

/-- The mantissa of a normal double, with its leading bit. -/
theorem toNat_one_append (m : BitVec 52) : (1#1 ++ m).toNat = m.toNat + leadingBit := by
  rw [BitVec.toNat_append, Nat.shiftLeft_eq, Nat.mul_comm, ← Nat.two_pow_add_eq_or_of_lt m.isLt, add_comm]
  rfl

/-- What an unpacked double stands for. -/
def unpackedReading : UnpackedFloat → Reading
  | .notANumber => .undefined
  | .infinity s => .infinite (isNegative s)
  | .zero s => .finite (isNegative s) 0
  | .finite s m e _ => .finite (isNegative s) (signed (isNegative s) (m * (2 : Rat) ^ e))

/-- The unpacked double with a sign, a mantissa and an exponent. -/
def unpacked (n : Bool) (m : Nat) (e : Int) : UnpackedFloat :=
  if h : m = 0 then .zero (signOf n) else .finite (signOf n) m e (Nat.pos_of_ne_zero h)

theorem finite_eq_unpacked (n : Bool) {m : Nat} (e : Int) (h : 0 < m) :
    .finite (signOf n) m e h = unpacked n m e := by
  rw [unpacked, dif_neg h.ne']

theorem unpackedReading_unpacked (n : Bool) (m : Nat) (e : Int) :
    unpackedReading (unpacked n m e) = .finite n (signed n (m * (2 : Rat) ^ e)) := by
  unfold unpacked
  split
  · rename_i hm
    rw [hm, Nat.cast_zero, zero_mul]
    cases n <;> rfl
  · cases n <;> rfl

/-- Bits are unpacked to the mantissa and the exponent that they are read as. -/
theorem unpack_eq (b : BitVec Format.binary64.numBits) :
    unpack Format.binary64 b =
      if b.toNat / leadingBit % 2048 = 2047 then
        if b.toNat % leadingBit = 0 then .infinity (signOf (decide (signBit ≤ b.toNat)))
        else .notANumber
      else unpacked (decide (signBit ≤ b.toNat)) (mantissaExponent b.toNat).1
        (mantissaExponent b.toNat).2 := by
  have hinf : unpackExponent b = -1#_ ↔ (unpackExponent b).toNat = 2047 := BitVec.toNat_inj.symm
  have hzero : unpackExponent b = 0#_ ↔ (unpackExponent b).toNat = 0 := BitVec.toNat_inj.symm
  have hfrac : unpackMantissa b = 0#_ ↔ (unpackMantissa b).toNat = 0 := BitVec.toNat_inj.symm
  rw [toNat_unpackExponent] at hinf hzero
  rw [toNat_unpackMantissa] at hfrac
  unfold unpack mantissaExponent
  dsimp only
  rw [ofBitVec_unpackSign]
  by_cases hi : b.toNat / leadingBit % 2048 = 2047
  · rw [if_pos (hinf.2 hi), if_pos hi]
    by_cases hf : b.toNat % leadingBit = 0
    · rw [if_pos (hfrac.2 hf), if_pos hf]
    · rw [if_neg (mt hfrac.1 hf), if_neg hf]
  · rw [if_neg (mt hinf.1 hi), if_neg hi]
    by_cases he : b.toNat / leadingBit % 2048 = 0
    · rw [if_pos (hzero.2 he), if_pos he]
      by_cases hf : b.toNat % leadingBit = 0
      · rw [dif_pos (hfrac.2 hf), hf]
        rfl
      · rw [dif_neg (mt hfrac.1 hf), finite_eq_unpacked, toNat_unpackMantissa, toNat_unpackExponent, he]
        rfl
    · rw [if_neg (mt hzero.1 he), if_neg he, finite_eq_unpacked, toNat_unpackExponent]
      show unpacked _ (1#1 ++ (unpackMantissa b : BitVec 52)).toNat _ = _
      rw [toNat_one_append, toNat_unpackMantissa]
      have hbias : ((b.toNat / leadingBit % 2048 : Nat) : Int) - ((1023 : Nat) + (52 : Nat)) =
          minExponent + (b.toNat / leadingBit % 2048 : Nat) - 1 := by
        show _ = -1074 + _ - 1
        omega
      exact congrArg _ hbias

theorem unpack_toModel (x : Float) :
    x.toModel.unpack =
      if x.toBits.toNat / leadingBit % 2048 = 2047 then
        if x.toBits.toNat % leadingBit = 0 then .infinity (signOf (decide (signBit ≤ x.toBits.toNat)))
        else .notANumber
      else unpacked (decide (signBit ≤ x.toBits.toNat)) (mantissaExponent x.toBits.toNat).1
        (mantissaExponent x.toBits.toNat).2 :=
  unpack_eq x.toBits.toBitVec

theorem reading_eq (x : Float) : reading x = unpackedReading x.toModel.unpack := by
  rw [unpack_toModel]
  unfold reading
  dsimp only
  by_cases hi : x.toBits.toNat / leadingBit % 2048 = 2047
  · rw [if_pos hi, if_pos hi]
    by_cases hf : x.toBits.toNat % leadingBit = 0
    · rw [if_pos hf, if_pos hf, unpackedReading, isNegative_signOf]
    · rw [if_neg hf, if_neg hf]
      rfl
  · rw [if_neg hi, if_neg hi, unpackedReading_unpacked]
    rfl

/-! ### Canonical mantissas and exponents -/

/-- The mantissas and exponents of doubles: a mantissa has its leading bit, unless the exponent is the
least one. -/
structure IsCanonical (m : Nat) (e : Int) : Prop where
  lt : m < 2 ^ 53
  le_exponent : minExponent ≤ e
  leading : 2 ^ 52 ≤ m ∨ e = minExponent

theorem magnitude_nonneg (m : Nat) (e : Int) : 0 ≤ m * (2 : Rat) ^ e := by positivity

theorem isCanonical_mantissaExponent (bits : Nat) :
    IsCanonical (mantissaExponent bits).1 (mantissaExponent bits).2 := by
  have hf : bits % leadingBit < 2 ^ 52 := Nat.mod_lt _ (by decide)
  unfold mantissaExponent
  dsimp only
  split
  · exact ⟨by omega, le_rfl, .inr rfl⟩
  · have hleading := leadingBit_eq
    exact ⟨by dsimp only; omega, by dsimp only; omega, .inl (by dsimp only; omega)⟩

/-- The exponent of what is not too large fits into the bits. -/
theorem IsCanonical.exponent_lt {m : Nat} {e : Int} (hc : IsCanonical m e)
    (hlt : m * (2 : Rat) ^ e < overflowLimit) : e < 972 := by
  rcases hc.leading with hm | rfl
  · have hm : (2 : Rat) ^ (52 : Int) ≤ m := by exact_mod_cast hm
    have hpow : (2 : Rat) ^ (52 + e) < (2 : Rat) ^ (1024 : Int) := by
      rw [zpow_add₀ (by norm_num)]
      exact lt_of_le_of_lt (mul_le_mul_of_nonneg_right hm (two_zpow_pos e).le) hlt
    have := two_zpow_lt_iff.1 hpow
    omega
  · decide

theorem IsCanonical.lt_overflowLimit {m : Nat} {e : Int} (hc : IsCanonical m e) (he : e < 972) :
    m * (2 : Rat) ^ e < overflowLimit := by
  have hm : (m : Rat) < (2 : Rat) ^ (53 : Int) := by exact_mod_cast hc.lt
  calc m * (2 : Rat) ^ e < (2 : Rat) ^ (53 : Int) * 2 ^ e := mul_lt_mul_of_pos_right hm (two_zpow_pos e)
    _ = 2 ^ (53 + e) := (zpow_add₀ (by norm_num) _ _).symm
    _ ≤ 2 ^ (1024 : Int) := two_zpow_le (by omega)

/-- The exponent of a finite double. -/
theorem mantissaExponent_lt {bits : Nat} (h : bits / leadingBit % 2048 ≠ 2047) :
    (mantissaExponent bits).2 < 972 := by
  unfold mantissaExponent
  dsimp only
  split
  · show minExponent < 972
    decide
  · show -1074 + _ - (1 : Int) < 972
    omega

/-- An unpacked double is the canonical one at a distance from zero. -/
def Unpacks (u : UnpackedFloat) (n : Bool) (q : Rat) : Prop :=
  ∃ m e, u = unpacked n m e ∧ IsCanonical m e ∧ q = m * (2 : Rat) ^ e

/-- A finite double is unpacked to what is canonical and not too large. -/
theorem unpacks_of_stands {x : Float} {n : Bool} {q : Rat} (h : Stands x n q) :
    Unpacks x.toModel.unpack n q ∧ q < overflowLimit := by
  have hreading : unpackedReading x.toModel.unpack = .finite n (signed n q) :=
    (reading_eq x).symm.trans h.reading_eq
  have hunpack := unpack_toModel x
  by_cases hi : x.toBits.toNat / leadingBit % 2048 = 2047
  · -- There is no double with this exponent that is finite.
    rw [if_pos hi] at hunpack
    rw [hunpack] at hreading
    split at hreading <;> cases hreading
  · rw [if_neg hi] at hunpack
    rw [hunpack, unpackedReading_unpacked] at hreading
    obtain ⟨hn, hv⟩ := Reading.finite.inj hreading
    rw [hn] at hunpack hv
    have hq : q = (mantissaExponent x.toBits.toNat).1 * (2 : Rat) ^ (mantissaExponent x.toBits.toNat).2 := by
      rw [← abs_signed (n := n) h.nonneg, ← hv, abs_signed (magnitude_nonneg _ _)]
    have hc := isCanonical_mantissaExponent x.toBits.toNat
    exact ⟨⟨_, _, hunpack, hc, hq⟩, hq ▸ hc.lt_overflowLimit (mantissaExponent_lt hi)⟩

/-- A finite double stands at some distance from zero. -/
theorem exists_stands {x : Float} (h : (reading x).isFinite = true) : ∃ n q, Stands x n q := by
  rw [isFinite_reading, decide_eq_true_eq] at h
  have hreading := reading_eq x
  rw [unpack_toModel, if_neg h, unpackedReading_unpacked] at hreading
  exact ⟨_, _, hreading, magnitude_nonneg _ _⟩

theorem unpack_packComponents (n : Bool) {f : Nat} (hf : f < 2047) (m : Nat) :
    unpack Format.binary64
        (packComponents Format.binary64 (signOf n) (BitVec.ofNat 11 f) (BitVec.ofNat 52 m)) =
      if f = 0 then unpacked n (m % leadingBit) minExponent
      else unpacked n (m % leadingBit + leadingBit) (minExponent + f - 1) := by
  generalize hb : packComponents Format.binary64 (signOf n) (BitVec.ofNat 11 f) (BitVec.ofNat 52 m) = b
  have hsign : decide (signBit ≤ b.toNat) = n := by
    rw [← isNegative_signOf (decide _), ← ofBitVec_unpackSign, ← hb, unpackSign_packComponents,
      Sign.ofBitVec_toBitVec, isNegative_signOf]
  have hexponent : b.toNat / leadingBit % 2048 = f := by
    rw [← toNat_unpackExponent, ← hb, unpackExponent_packComponents]
    exact Nat.mod_eq_of_lt (by omega)
  have hmantissa : b.toNat % leadingBit = m % leadingBit := by
    rw [← toNat_unpackMantissa, ← hb, unpackMantissa_packComponents]
    rfl
  rw [unpack_eq, hexponent, hsign, if_neg (by omega)]
  unfold mantissaExponent
  dsimp only
  rw [hexponent, hmantissa]
  split <;> rfl

/-- What is canonical and not too large is unpacked as it was packed. -/
theorem unpack_pack_unpacked (n : Bool) {m : Nat} {e : Int} (hc : IsCanonical m e)
    (hlt : m * (2 : Rat) ^ e < overflowLimit) :
    unpack Format.binary64 (pack Format.binary64 (unpacked n m e)) = unpacked n m e := by
  have he := hc.exponent_lt hlt
  have hleast : -1074 ≤ e := hc.le_exponent
  by_cases hm : m = 0
  · rw [unpacked, dif_pos hm]
    exact unpack_packedZero
  · have hbias : (e + Format.binary64.exponentBias +
        Format.binary64.mantissaBitsWithoutImplicit).toNat = (e + 1075).toNat := by
      show (e + (1023 : Nat) + (52 : Nat)).toNat = _
      omega
    rw [← finite_eq_unpacked n e (Nat.pos_of_ne_zero hm)]
    unfold pack
    dsimp only
    rw [hbias, if_neg (by show ¬2048 ≤ _; omega), finite_eq_unpacked]
    have hlt := hc.lt
    have hmin : minExponent = -1074 := rfl
    by_cases hnormal : 2 ^ 52 ≤ m
    · have hlog : m.log2 + 1 = Format.binary64.mantissaBits := by
        show m.log2 + 1 = 53
        rw [(Nat.log2_eq_iff hm).2 ⟨hnormal, hlt⟩]
      rw [if_pos hlog]
      refine (unpack_packComponents n (by omega) m).trans ?_
      rw [if_neg (by omega), leadingBit_eq]
      congr 1 <;> omega
    · have hlog : m.log2 + 1 ≠ Format.binary64.mantissaBits := by
        have := (Nat.log2_lt hm).2 (not_le.1 hnormal)
        show m.log2 + 1 ≠ 53
        omega
      rw [if_neg hlog]
      refine (unpack_packComponents n (f := 0) (by decide) m).trans ?_
      rw [if_pos rfl, ← hc.leading.resolve_left hnormal, leadingBit_eq, Nat.mod_eq_of_lt (by omega)]

/-- A double is packed from what is canonical, unless it is too large. -/
theorem Unpacks.stands {u : UnpackedFloat} {n : Bool} {q : Rat} (h : Unpacks u n q)
    (hlt : q < overflowLimit) : Stands (.ofModel (.pack u) : Float) n q := by
  obtain ⟨m, e, rfl, hc, rfl⟩ := h
  have hunpack : (Float.ofModel (.pack (unpacked n m e))).toModel.unpack = unpacked n m e :=
    unpack_pack_unpacked n hc hlt
  refine ⟨(reading_eq _).trans ?_, magnitude_nonneg m e⟩
  rw [hunpack, unpackedReading_unpacked]

/-! ### Doubles made from bits -/

theorem pack_unpack_of_exponent {b : BitVec Format.binary64.numBits}
    (h : b.toNat / leadingBit % 2048 ≠ 2047) : pack Format.binary64 (unpack Format.binary64 b) = b := by
  rw [pack_unpack b, if_neg]
  intro hnan
  have hexponent := toNat_unpackExponent b
  rw [(of_decide_eq_true hnan).1] at hexponent
  exact h hexponent.symm

/-- Bits are kept, unless they are those of an infinity or of an undefined number. -/
theorem toBits_ofBits {u : UInt64} (h : u.toNat / leadingBit % 2048 ≠ 2047) :
    (Float.ofBits u).toBits = u :=
  UInt64.toBitVec_inj.1 (pack_unpack_of_exponent (b := u.toBitVec) h)

/-- The double made from a sign and bits below those of infinity. -/
theorem stands_ofMagnitude (n : Bool) {bits : Nat} (h : bits < infinityBits) :
    Stands (ofMagnitude n bits) n ((mantissaExponent bits).1 * (2 : Rat) ^ (mantissaExponent bits).2) := by
  have hinf : infinityBits = 2047 * 2 ^ 52 := rfl
  rw [hinf] at h
  generalize hu : UInt64.ofNat (bits + if n then signBit else 0) = u
  have hbits : u.toNat = bits + if n then signBit else 0 := by
    rw [← hu, UInt64.toNat_ofNat', signBit_eq]
    refine Nat.mod_eq_of_lt ?_
    split <;> omega
  have hexponent : u.toNat / leadingBit % 2048 = bits / leadingBit % 2048 := by
    rw [hbits, signBit_eq, leadingBit_eq]
    split <;> omega
  have hmantissa : u.toNat % leadingBit = bits % leadingBit := by
    rw [hbits, signBit_eq, leadingBit_eq]
    split <;> omega
  have hfinite : u.toNat / leadingBit % 2048 ≠ 2047 := by
    rw [hexponent, leadingBit_eq]
    omega
  have hsign : decide (signBit ≤ u.toNat) = n := by
    rw [hbits, signBit_eq]
    cases n with
    | true => exact decide_eq_true (by rw [if_pos rfl]; omega)
    | false => exact decide_eq_false (by rw [if_neg (by decide)]; omega)
  have hvalue : mantissaExponent u.toNat = mantissaExponent bits := by
    unfold mantissaExponent
    rw [hexponent, hmantissa]
  refine ⟨?_, magnitude_nonneg _ _⟩
  show reading (Float.ofBits (UInt64.ofNat (bits + if n then signBit else 0))) = _
  rw [hu]
  unfold reading
  dsimp only
  rw [toBits_ofBits hfinite, if_neg hfinite, hsign, hvalue]
  rfl

end Double

end FeynmanTikz
