/-
Whole numbers and their opposites.

The second coordinate of the text grows upwards, that of a diagram downwards.  So a coordinate that
fits into `R` is turned into its opposite before it is made a number of type `R`, and that fits as well
wherever rounding does not prefer one sign.

* `HasOpposites R`: the opposite of a whole number fits into `R` if the number does,
* `Double.isFinite_ofMagnitude`: whether a double is finite is a matter of its exponent alone,
* `Double.isFinite_ofInt_neg`: so doubles have opposites.

Design notes.
* A double is made from its bits by unpacking and packing them.  By `pack_unpack` this keeps the
  exponent, and nothing more has to be known about it.
-/
import FeynmanTikz.Number.Double
import Mathlib

namespace FeynmanTikz

/-- The opposite of a whole number fits into `R` if the number does. -/
class HasOpposites (R : Type) [Arithmetic R] : Prop where
  isFinite_neg : ∀ n : Int, Arithmetic.isFinite (Arithmetic.ofInt n : R) = true →
    Arithmetic.isFinite (Arithmetic.ofInt (-n) : R) = true

namespace Double

open Float.Model (Format)
open Float.Model.UnpackedFloat

/-- Packing what has been unpacked keeps the exponent, also of an undefined number, whose other bits
are not kept. -/
theorem unpackExponent_pack_unpack (b : BitVec Format.binary64.numBits) :
    unpackExponent (pack Format.binary64 (unpack Format.binary64 b)) = unpackExponent b := by
  rw [pack_unpack b]
  split
  · rename_i hundefined
    have hmax : unpackExponent b = -1#_ := (of_decide_eq_true hundefined).1
    rw [hmax]
    exact unpackExponent_packComponents
  · rfl

/-- A double made from some bits has their exponent. -/
theorem exponent_toBits_ofBits (u : UInt64) :
    (Float.ofBits u).toBits.toNat / leadingBit % 2048 = u.toNat / leadingBit % 2048 := by
  have hfield (v : UInt64) : (@unpackExponent Format.binary64 v.toBitVec).toNat =
      v.toNat / leadingBit % 2048 := by
    show (BitVec.extractLsb 62 52 v.toBitVec).toNat = _
    rw [BitVec.extractLsb_toNat, Nat.shiftRight_eq_div_pow]
    rfl
  rw [← hfield, ← hfield]
  exact congrArg BitVec.toNat (unpackExponent_pack_unpack u.toBitVec)

/-- A double is finite unless its exponent is the largest one. -/
theorem isFinite_reading (x : Float) :
    (reading x).isFinite = decide (x.toBits.toNat / leadingBit % 2048 ≠ 2047) := by
  unfold reading
  dsimp only
  split
  · rename_i h
    split <;> simp [Reading.isFinite, h]
  · rename_i h
    simp [Reading.isFinite, h]

/-- Whether a double is finite does not depend on its sign. -/
theorem isFinite_ofMagnitude {bits : Nat} (h : bits ≤ infinityBits) (negative : Bool) :
    (reading (ofMagnitude negative bits)).isFinite = decide (bits / leadingBit % 2048 ≠ 2047) := by
  have hL : leadingBit = 4503599627370496 := by decide
  have hS : signBit = 9223372036854775808 := by decide
  have hI : infinityBits = 2047 * 4503599627370496 := by decide
  rw [isFinite_reading, ofMagnitude, exponent_toBits_ofBits, UInt64.toNat_ofNat']
  -- The sign is above the exponent.
  have hexp : (bits + if negative then signBit else 0) % 2 ^ 64 / leadingBit % 2048 =
      bits / leadingBit % 2048 := by
    rw [hI] at h
    rw [hL, hS]
    cases negative with
    | false =>
      rw [if_neg (by decide)]
      omega
    | true =>
      rw [if_pos rfl]
      omega
  rw [hexp]

theorem nearestBits_le (q : Rat) : nearestBits q ≤ infinityBits := Nat.min_le_right _ _

/-- A whole number and its opposite are made doubles of the same magnitude. -/
theorem isFinite_ofInt_neg (n : Int) :
    Arithmetic.isFinite (Arithmetic.ofInt (-n) : Float) =
      Arithmetic.isFinite (Arithmetic.ofInt n : Float) := by
  have hbits (q : Rat) : (if q = 0 then 0 else nearestBits q.abs) ≤ infinityBits := by
    split
    · exact Nat.zero_le _
    · exact nearestBits_le _
  have key (m : Int) : Arithmetic.isFinite (Arithmetic.ofInt m : Float) =
      decide ((if (m : Rat) = 0 then 0 else nearestBits (m : Rat).abs) / leadingBit % 2048 ≠ 2047) :=
    isFinite_ofMagnitude (hbits m) _
  rw [key, key, Rat.intCast_neg, Rat.abs_neg]
  simp only [neg_eq_zero]

end Double

instance : HasOpposites Float := ⟨fun n h => (Double.isFinite_ofInt_neg n).trans h⟩

end FeynmanTikz
