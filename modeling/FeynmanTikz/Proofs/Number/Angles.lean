/-
Angles of doubles.

The angle of a vector comes from the machine, and nothing else is known of it than what is asked of every
arithmetic.  All the rest that is asked of angles holds of doubles: a sum is the exact one, rounded, and what
is undefined stays so.

* `Unpacks.add`, `exists_stands_add`: the sum of doubles is the exact one rounded,
* `reading_add_undefined`, `reading_sub_undefined`: undefined sums and differences,
* `Double.angles_of_bounded`: doubles have angles if those of the machine are not far from zero,
* `Axial`: doubles with an angle that can be computed, along the axes; `Angles Axial Double.rounded`.
-/
import FeynmanTikz.Proofs.Number.Lengths
import FeynmanTikz.Proofs.Number.Opposites

namespace FeynmanTikz

namespace Double

open Float.Model (Format UnpackedFloat)
open Float.Model.UnpackedFloat

/-! ### Sums -/

/-- To add is to take the opposite away. -/
theorem unpacked_sub_neg (u v : UnpackedFloat) :
    UnpackedFloat.sub Format.binary64 u (UnpackedFloat.neg v) = UnpackedFloat.add Format.binary64 u v := by
  have happly (s : Sign) (m : Int) : (-s).apply m = -s.apply m := by
    cases s with
    | positive => rfl
    | negative => exact (neg_neg m).symm
  cases u with
  | notANumber => cases v <;> rfl
  | finite s m e hm =>
    cases v with
    | infinity t => cases t <;> rfl
    | finite t m' e' hm' =>
      show UnpackedFloat.normalize _ (_ - (-t).apply _) _ _ = UnpackedFloat.normalize _ (_ + t.apply _) _ _
      rw [happly, sub_neg_eq_add]
    | _ => rfl
  | _ s =>
    cases v with
    | infinity t => cases t <;> rfl
    | zero t => cases t <;> rfl
    | finite t m e hm => cases t <;> rfl
    | notANumber => rfl

theorem Unpacks.add {u v : UnpackedFloat} {n n' : Bool} {p q : Rat} (hu : Unpacks u n p) (hv : Unpacks v n' q) :
    ∃ s, Unpacks (UnpackedFloat.add Format.binary64 u v) s (rounded |signed n p + signed n' q|) := by
  rw [← unpacked_sub_neg, ← sub_neg_eq_add, ← signed_not]
  exact hu.sub hv.neg

theorem exists_stands_add {x y : Float} {m n : Bool} {p q : Rat} (hx : Stands x m p) (hy : Stands y n q)
    (hlt : rounded |signed m p + signed n q| < overflowLimit) :
    ∃ s, Stands (x + y) s (rounded |signed m p + signed n q|) := by
  obtain ⟨s, hs⟩ := (unpacks_of_stands hx).1.add (unpacks_of_stands hy).1
  exact ⟨s, hs.stands hlt⟩

/-! ### What is undefined -/

theorem unpack_of_undefined {x : Float} (h : reading x = .undefined) : x.toModel.unpack = .notANumber := by
  rw [reading_eq] at h
  cases hu : x.toModel.unpack with
  | notANumber => rfl
  | infinity s => rw [hu] at h; cases h
  | zero s => rw [hu] at h; cases h
  | finite s m e hm => rw [hu] at h; cases h

theorem reading_notANumber : reading (.ofModel (.pack .notANumber)) = .undefined := by decide +kernel

theorem reading_add_undefined {x : Float} (h : reading x = .undefined) (y : Float) :
    reading (x + y) = .undefined := by
  have hsum : x + y = .ofModel (.pack .notANumber) := by
    show Float.ofModel (.pack (UnpackedFloat.add Format.binary64 x.toModel.unpack y.toModel.unpack)) = _
    rw [unpack_of_undefined h]
    rfl
  rw [hsum, reading_notANumber]

theorem reading_sub_undefined {x : Float} (h : reading x = .undefined) (y : Float) :
    reading (x - y) = .undefined := by
  have hdifference : x - y = .ofModel (.pack .notANumber) := by
    show Float.ofModel (.pack (UnpackedFloat.sub Format.binary64 x.toModel.unpack y.toModel.unpack)) = _
    rw [unpack_of_undefined h]
    rfl
  rw [hdifference, reading_notANumber]

/-! ### Angles -/

/-- The circle number. -/
theorem exists_stands_pi : ∃ q, Stands (Arithmetic.pi : Float) false q ∧ q ≤ (4 : Nat) := by
  have hle : ((3141592653589793 : Nat) : Rat) * (10 : Rat) ^ (-15 : Int) ≤ (4 : Nat) := by norm_num
  have hbound := rounded_le (by norm_num) (by positivity) hle
  exact ⟨_, stands_ofDecimal (lt_overflowLimit (by norm_num) hbound), hbound⟩

/-- Doubles have angles if those that the machine computes are not far from zero. -/
theorem angles_of_bounded (h : ∀ y x : Float, Bounded 4 (Float.atan2 y x)) : Angles Float rounded where
  add := exists_stands_add
  undefined_add y hx := reading_add_undefined hx y
  undefined_sub y hx := reading_sub_undefined hx y
  atan2 := h
  pi := exists_stands_pi

end Double

/-! ### Angles along the axes -/

/-- Doubles with another angle, which is computed for vectors along the axes and undefined for all others. -/
def Axial := Float

namespace Axial

/-- An angle on the side that the sign says. -/
def turned (negative : Bool) (θ : Float) : Float := if negative then -θ else θ

/-- The angle of a vector along an axis.  A zero has a sign, and its side is that of the sign. -/
def angle (y x : Float) : Float :=
  match Arithmetic.reading y, Arithmetic.reading x with
  | .finite n v, .finite m w =>
    if v = 0 then turned n (if m then Arithmetic.pi else Arithmetic.ofInt 0)
    else if w = 0 then turned n (Arithmetic.pi / Arithmetic.ofInt 2)
    else Arithmetic.ofReading .undefined
  | _, _ => Arithmetic.ofReading .undefined

instance : Arithmetic Axial := { (inferInstance : Arithmetic Float) with atan2 := angle }

/-- What a number stands for has nothing to do with angles. -/
theorem stands_iff {x : Axial} {n : Bool} {q : Rat} : Stands x n q ↔ Stands (R := Float) x n q :=
  ⟨fun h => ⟨h.reading_eq, h.nonneg⟩, fun h => ⟨h.reading_eq, h.nonneg⟩⟩

instance : Rounds Axial Double.rounded where
  isRounding := Double.isRounding_rounded
  exists_stands x h := by
    obtain ⟨n, q, hq⟩ := Double.exists_stands (x := x) h
    exact ⟨n, q, stands_iff.2 hq⟩
  neg hx := stands_iff.2 (Rounds.neg (stands_iff.1 hx))
  mul hx hy h := stands_iff.2 (Rounds.mul (stands_iff.1 hx) (stands_iff.1 hy) h)
  div hx hy hq h := stands_iff.2 (Rounds.div (stands_iff.1 hx) (stands_iff.1 hy) hq h)
  ofDecimal h := stands_iff.2 (Rounds.ofDecimal (R := Float) h)
  ofReading hq h := stands_iff.2 (Rounds.ofReading (R := Float) hq h)

instance : Lengths Axial Double.rounded where
  sub hx hy h := (Lengths.sub (stands_iff.1 hx) (stands_iff.1 hy) h).imp fun _ => stands_iff.2
  hypot hx hy hk h := (Lengths.hypot (stands_iff.1 hx) (stands_iff.1 hy) hk h).imp
    fun _ hr => ⟨stands_iff.2 hr.1, hr.2⟩
  floorDiv hx hy hq h := stands_iff.2 (Lengths.floorDiv (stands_iff.1 hx) (stands_iff.1 hy) hq h)
  floorDiv_large hx hy hq h := (Lengths.floorDiv_large (stands_iff.1 hx) (stands_iff.1 hy) hq h).imp_right
    fun ⟨k, hk, hstands⟩ => ⟨k, hk, stands_iff.2 hstands⟩
  floorDiv_infinite hx hy := stands_iff.2 (Lengths.floorDiv_infinite (stands_iff.1 hx) hy)

theorem bounded_turned (n : Bool) {θ : Axial} {q : Rat} (h : Stands θ false q) (hq : q ≤ (4 : Nat)) :
    Bounded (R := Axial) 4 (turned n θ) := by
  cases n with
  | false => exact .inr ⟨_, q, h, hq⟩
  | true => exact .inr ⟨_, q, Rounds.neg h, hq⟩

theorem exists_stands_pi : ∃ q, Stands (Arithmetic.pi : Axial) false q ∧ q ≤ (4 : Nat) :=
  Double.exists_stands_pi.imp fun _ h => ⟨stands_iff.2 h.1, h.2⟩

theorem bounded_angle (y x : Axial) : Bounded 4 (Arithmetic.atan2 y x) := by
  have hundefined : Bounded (R := Axial) 4 (Arithmetic.ofReading .undefined) := .inl (by decide +kernel)
  obtain ⟨q, hpi, hq⟩ := exists_stands_pi
  show Bounded (R := Axial) 4 (angle y x)
  unfold angle
  split
  · split
    · split
      · exact bounded_turned _ hpi hq
      · have hzero : Stands (Arithmetic.ofInt 0 : Axial) _ _ := stands_ofInt (by norm_num)
        exact bounded_turned _ hzero (by norm_num)
    · split
      · have htwo : Stands (Arithmetic.ofInt 2 : Axial) _ _ := stands_ofInt (by norm_num)
        have hle : q / (2 : Int).natAbs ≤ (4 : Nat) := (div_le_self hpi.nonneg (by norm_num)).trans hq
        have hbound := Double.rounded_le (by norm_num) (div_nonneg hpi.nonneg (Nat.cast_nonneg _)) hle
        exact bounded_turned _ (Rounds.div hpi htwo (by norm_num) (lt_overflowLimit (by norm_num) hbound)) hbound
      · exact hundefined
  · exact hundefined

instance : Angles Axial Double.rounded where
  add hx hy h := (Double.exists_stands_add (stands_iff.1 hx) (stands_iff.1 hy) h).imp fun _ => stands_iff.2
  undefined_add y hx := Double.reading_add_undefined hx y
  undefined_sub y hx := Double.reading_sub_undefined hx y
  atan2 := bounded_angle
  pi := exists_stands_pi

instance : HasOpposites Axial := ⟨HasOpposites.isFinite_neg (R := Float)⟩

end Axial

end FeynmanTikz
