/-
Positions as points of the plane.

A valid position is a pair of scalars, and each of these becomes a number of type `R` without loss.  The step
from one point to another is a point again, and it has a finite length.

* `Value.Reads v p`: the coordinates of a position become numbers,
* `Scalar.Within k a x`, `Value.Within k v p`: a scalar and the number it becomes, a position and its point,
  not further than `k` from zero,
* `IsPosition.exists_within`: valid positions have points,
* `isZero_of_not_tiny`, `unitTangent_eq_or`: what has a direction can be divided by its length,
* `Value.Within.exists_sub`, `Value.Within.exists_hypot`: the step between two points is finite, and so is
  its length.
-/
import FeynmanTikz.Proofs.Number.Vectors
import FeynmanTikz.Proofs.Tikz.RoundedMeasure
import FeynmanTikz.Stroke.Polyline

namespace FeynmanTikz

section

variable {R : Type} [Arithmetic R]

/-! ### Points -/

/-- A scalar and the number of type `R` it becomes, which stands not further than `k` from zero. -/
structure Scalar.Within (k : Nat) (a : Scalar R) (x : R) : Prop where
  toReal_eq : a.toReal = .ok x
  exists_stands : ∃ n q, a.reading = .finite n (signed n q) ∧ FeynmanTikz.Stands x n q ∧ q ≤ k

/-- A position and its point. -/
def Value.Within (k : Nat) (v : Value R) (p : R × R) : Prop :=
  ∃ a b, IsPair v a b ∧ a.Within k p.1 ∧ b.Within k p.2

/-- A position whose coordinates become the given numbers, wherever these stand. -/
def Value.Reads (v : Value R) (p : R × R) : Prop :=
  ∃ a b, IsPair v a b ∧ a.toReal = .ok p.1 ∧ b.toReal = .ok p.2

theorem Value.Within.reads {k : Nat} {v : Value R} {p : R × R} (h : v.Within k p) : v.Reads p := by
  obtain ⟨a, b, hv, ha, hb⟩ := h
  exact ⟨a, b, hv, ha.toReal_eq, hb.toReal_eq⟩

theorem expectReal_of_toReal {a : Scalar R} {x : R} (h : a.toReal = .ok x) :
    (Value.number a).expectReal = .ok x := by
  show liftArithmetic a.toReal = _
  rw [h]
  rfl

/-- A number that is read by the machine: if it is whole, it takes 64 bits at most. -/
def Scalar.IsMachine : Scalar R → Prop
  | .int n => Value.isMachineWhole n = true
  | .real _ => True

/-- A position whose coordinates are numbers of the machine. -/
def Value.IsMachine (v : Value R) : Prop := ∀ a b, IsPair v a b → a.IsMachine ∧ b.IsMachine

namespace Scalar.Within

variable {k : Nat} {a : Scalar R} {x : R}

/-- Nothing is lost. -/
theorem same (h : a.Within k x) : (Scalar.real x).same a = true := by
  obtain ⟨n, q, ha, hx, -⟩ := h.exists_stands
  show (Arithmetic.reading x).same a.reading = true
  rw [ha, hx.reading_eq]
  simp [Reading.same]

theorem natAbs_le {m : Int} (h : (Scalar.int m : Scalar R).Within k x) : m.natAbs ≤ k := by
  obtain ⟨n, q, hm, hx, hq⟩ := h.exists_stands
  obtain ⟨-, hm⟩ := Reading.finite.inj hm
  have habs : ((m.natAbs : Nat) : Rat) = q := by
    rw [Nat.cast_natAbs, Int.cast_abs, hm, abs_signed_of_nonneg hx.nonneg]
  rw [← habs] at hq
  exact_mod_cast hq

theorem isMachine (h : a.Within k x) (hk : k < 2 ^ 63) : a.IsMachine := by
  cases a with
  | real y => trivial
  | int m =>
    have hle := h.natAbs_le
    show Value.isMachineWhole m = true
    unfold Value.isMachineWhole
    rw [Bool.and_eq_true, decide_eq_true_eq, decide_eq_true_eq]
    omega

end Scalar.Within

omit [Arithmetic R] in
theorem IsPair.isMachine {v : Value R} {a b : Scalar R} (h : IsPair v a b) (ha : a.IsMachine) (hb : b.IsMachine) :
    v.IsMachine := by
  intro c d hcd
  obtain ⟨rfl, rfl⟩ := h.unique hcd
  exact ⟨ha, hb⟩

theorem Value.Within.isMachine {k : Nat} {v : Value R} {p : R × R} (h : v.Within k p) (hk : k < 2 ^ 63) :
    v.IsMachine := by
  obtain ⟨a, b, hab, ha, hb⟩ := h
  exact hab.isMachine (ha.isMachine hk) (hb.isMachine hk)

namespace Value.Reads

variable {v : Value R} {p : R × R}

theorem coordinates_eq (h : v.Reads p) : coordinates v = .ok p := by
  obtain ⟨a, b, hv, ha, hb⟩ := h
  unfold coordinates
  rw [x_of_isPair hv, y_of_isPair hv]
  show ((Value.number a).expectReal >>= fun x => (Value.number b).expectReal >>= fun y => pure (x, y)) = _
  rw [expectReal_of_toReal ha, expectReal_of_toReal hb]
  rfl

theorem norm_eq (h : v.Reads p) : Vec.norm v = .ok (Arithmetic.hypot p.1 p.2) := by
  obtain ⟨a, b, hv, ha, hb⟩ := h
  unfold Vec.norm
  rw [x_of_isPair hv, y_of_isPair hv]
  show ((Value.number a).expectReal >>= fun x => (Value.number b).expectReal >>= fun y =>
    pure (Arithmetic.hypot x y)) = _
  rw [expectReal_of_toReal ha, expectReal_of_toReal hb]
  rfl

/-- A point is divided by any number but zero. -/
theorem exists_dividedBy (h : v.Reads p) {ℓ : R} (hℓ : (Arithmetic.reading ℓ).isZero = false) :
    ∃ w, Vec.dividedBy v (.real ℓ) = .ok w ∧ coordinates w = .ok (p.1 / ℓ, p.2 / ℓ) := by
  obtain ⟨a, b, hv, ha, hb⟩ := h
  have hdiv {c : Scalar R} {x : R} (hc : c.toReal = .ok x) :
      Value.div (.number c) (.real ℓ) = .ok (.real (x / ℓ)) := by
    have hscalar : Scalar.div c (.real ℓ) = .ok (.real (x / ℓ)) := by
      have htail : (do
          let x ← c.toReal
          let y ← (Scalar.real ℓ).toReal
          if (Arithmetic.reading y).isZero then .error .divisionByZero else .ok (.real (x / y)) :
          Except ArithmeticFault (Scalar R)) = .ok (.real (x / ℓ)) := by
        rw [hc]
        show (if (Arithmetic.reading ℓ).isZero = true then _ else _) = _
        rw [hℓ, if_neg (by decide)]
      cases c <;> exact htail
    exact (div_number c (.real ℓ)).trans (by rw [hscalar]; rfl)
  refine ⟨.tuple [.real (p.1 / ℓ), .real (p.2 / ℓ)], ?_, rfl⟩
  unfold Vec.dividedBy Vec.ofFormulas
  rw [x_of_isPair hv, y_of_isPair hv]
  show (Value.div (.number a) (.real ℓ) >>= fun x => Value.div (.number b) (.real ℓ) >>= fun y =>
    pure (Value.tuple [x, y])) = _
  rw [hdiv ha, hdiv hb]
  rfl

end Value.Reads

/-! ### Directions -/

theorem exists_coordinates_unitX : ∃ q : R × R, coordinates Vec.unitX = .ok q :=
  ⟨(Arithmetic.ofInt 1, Arithmetic.ofInt 0), rfl⟩

variable {ρ : Rat → Rat} [Rounds R ρ]

include ρ

/-- What is not tiny can be divided by. -/
theorem isZero_of_not_tiny {ℓ : R} (h : Arithmetic.le ℓ Vec.tinyLength = false) :
    (Arithmetic.reading ℓ).isZero = false := by
  have hρ : IsRounding ρ := Rounds.isRounding R
  have hone : ((1 : Nat) : Rat) * (10 : Rat) ^ (-12 : Int) ≤ (1 : Nat) := by norm_num
  have hpos : (0 : Rat) ≤ (1 : Nat) * (10 : Rat) ^ (-12 : Int) := by norm_num
  have htiny : Stands (Vec.tinyLength : R) false (ρ ((1 : Nat) * (10 : Rat) ^ (-12 : Int))) :=
    Rounds.ofDecimal (lt_overflowLimit (by norm_num) (hρ.le_natCast (by norm_num) hpos hone))
  rw [Bool.eq_false_iff]
  intro hzero
  obtain ⟨n, hn⟩ := Reading.eq_of_isZero hzero
  unfold Arithmetic.le at h
  rw [htiny.reading_eq, hn] at h
  exact absurd htiny.nonneg (of_decide_eq_false h)

/-- What is too short to have a direction is replaced. -/
theorem Value.Reads.exists_normalize {v : Value R} {p : R × R} (h : v.Reads p) {fallback : Value R}
    (hfallback : ∃ q, coordinates fallback = .ok q) :
    ∃ w q, Vec.normalize v fallback = .ok w ∧ coordinates w = .ok q := by
  unfold Vec.normalize
  rw [h.norm_eq, ok_bind]
  by_cases htiny : Arithmetic.le (Arithmetic.hypot p.1 p.2) Vec.tinyLength = true
  · obtain ⟨q, hq⟩ := hfallback
    refine ⟨fallback, q, ?_, hq⟩
    exact if_pos htiny
  · rw [Bool.not_eq_true] at htiny
    obtain ⟨w, hw, hcoordinates⟩ := h.exists_dividedBy (isZero_of_not_tiny htiny)
    refine ⟨w, _, ?_, hcoordinates⟩
    refine (if_neg ?_).trans hw
    show ¬Arithmetic.le (Arithmetic.hypot p.1 p.2) Vec.tinyLength = true
    rw [htiny]
    decide

/-- A tangent that is not tiny is divided by its length, which is not zero. -/
theorem unitTangent_eq_or [Arrays R] (chord tangent : R × R) : unitTangent chord tangent = chord ∨
    ((Arithmetic.reading (Arrays.hypot tangent.1 tangent.2)).isZero = false ∧
      unitTangent chord tangent = (tangent.1 / Arrays.hypot tangent.1 tangent.2,
        tangent.2 / Arrays.hypot tangent.1 tangent.2)) := by
  unfold unitTangent
  dsimp only
  by_cases htiny : Arithmetic.le (Arrays.hypot tangent.1 tangent.2) Vec.tinyLength = true
  · exact .inl (if_pos htiny)
  · rw [if_neg htiny]
    exact .inr ⟨isZero_of_not_tiny (Bool.not_eq_true _ ▸ htiny), rfl⟩

theorem Measure.exists_within {m : Measure} {c : Scalar R} (h : m.Admits c) :
    ∃ x, c.Within 1000000000 x := by
  obtain ⟨n, q, hstands, hvalid⟩ := Measure.exists_stands h
  obtain ⟨x, hx, hxq⟩ := hstands.exists_real
  exact ⟨x, hx, n, q, hstands.reading_eq, hxq, hvalid.le_max⟩

theorem IsPosition.exists_within {v : Value R} (h : IsPosition v) : ∃ p, v.Within 1000000000 p := by
  obtain ⟨a, b, hv, ha, hb⟩ := h
  obtain ⟨x, hx⟩ := Measure.exists_within (m := .abscissa) ha
  obtain ⟨y, hy⟩ := Measure.exists_within (m := .abscissa) hb
  exact ⟨(x, y), a, b, hv, hx, hy⟩

/-- A whole number that is not too large becomes a number. -/
theorem Scalar.within_int {m : Int} {k : Nat} (hm : m.natAbs ≤ k) (hk : k < 2 ^ 53) :
    (Scalar.int m : Scalar R).Within k (Arithmetic.ofInt m) := by
  have hstands : FeynmanTikz.Stands (Arithmetic.ofInt m : R) (decide (m < 0)) m.natAbs := stands_ofInt (by omega)
  refine ⟨if_pos hstands.isFinite, decide (m < 0), m.natAbs, ?_, hstands, by exact_mod_cast hm⟩
  rw [signed_natAbs]
  rfl

end

/-! ### Steps between points -/

section

variable {R : Type} [Arithmetic R]

/-- An operation is carried out on numbers, unless both operands are whole. -/
theorem Scalar.combine_eq_or {a b : Scalar R} {x y : R} (ha : a.toReal = .ok x) (hb : b.toReal = .ok y)
    (onInt : Int → Int → Int) (onReal : R → R → R) :
    combine onInt onReal a b = .ok (.real (onReal x y)) ∨
      ∃ m n, a = .int m ∧ b = .int n ∧ combine onInt onReal a b = .ok (.int (onInt m n)) := by
  have htail : (do
      let x ← a.toReal
      let y ← b.toReal
      .ok (.real (onReal x y)) : Except ArithmeticFault (Scalar R)) = .ok (.real (onReal x y)) := by
    rw [ha, hb]
    rfl
  cases a with
  | int m =>
    cases b with
    | int n => exact .inr ⟨m, n, rfl, rfl, rfl⟩
    | real y' => exact .inl htail
  | real x' => cases b <;> exact .inl htail

/-- An operation that does not lead far from whole numbers that are not too large. -/
theorem Scalar.Within.exists_combine {ρ : Rat → Rat} [Rounds R ρ] {k l : Nat} {a b : Scalar R} {x y : R}
    (ha : a.Within k x) (hb : b.Within l y) (hkl : k + l < 2 ^ 53) {onInt : Int → Int → Int}
    (honInt : ∀ m n, (onInt m n).natAbs ≤ m.natAbs + n.natAbs) (onReal : R → R → R) :
    ∃ c z, combine onInt onReal a b = .ok c ∧ c.toReal = .ok z := by
  rcases combine_eq_or ha.toReal_eq hb.toReal_eq onInt onReal with hreal | ⟨m, n, rfl, rfl, hint⟩
  · exact ⟨_, _, hreal, rfl⟩
  · have hm := ha.natAbs_le
    have hn := hb.natAbs_le
    have hmn := honInt m n
    exact ⟨_, _, hint, (Scalar.within_int (k := k + l) (by omega) hkl).toReal_eq⟩

variable {ρ : Rat → Rat} [Lengths R ρ] {k l : Nat}

include ρ

theorem Scalar.Within.exists_sub {a b : Scalar R} {x y : R} (ha : a.Within k x) (hb : b.Within l y)
    (hkl : k + l < 2 ^ 53) : ∃ c z, a.sub b = .ok c ∧ c.Within (k + l) z := by
  rcases combine_eq_or ha.toReal_eq hb.toReal_eq (· - ·) (· - ·) with hsub | ⟨m, n, rfl, rfl, hsub⟩
  · obtain ⟨m, p, -, hx, hp⟩ := ha.exists_stands
    obtain ⟨n, q, -, hy, hq⟩ := hb.exists_stands
    have hle := abs_signed_sub_le (m := m) (n := n) hx.nonneg hy.nonneg hp hq
    have hbound := (Rounds.isRounding R).le_natCast hkl (abs_nonneg _) hle
    obtain ⟨s, hs⟩ := Lengths.sub hx hy (lt_overflowLimit hkl hbound)
    exact ⟨_, _, hsub, rfl, s, _, hs.reading_eq, hs, hbound⟩
  · have hm := ha.natAbs_le
    have hn := hb.natAbs_le
    exact ⟨_, _, hsub, Scalar.within_int (by omega) hkl⟩

theorem Value.Within.exists_sub {u v : Value R} {p q : R × R} (hu : u.Within k p) (hv : v.Within l q)
    (hkl : k + l < 2 ^ 53) : ∃ d r, Vec.sub u v = .ok d ∧ d.Within (k + l) r := by
  obtain ⟨a, b, hab, ha, hb⟩ := hu
  obtain ⟨c, d, hcd, hc, hd⟩ := hv
  obtain ⟨x, x', hx, hxw⟩ := ha.exists_sub hc hkl
  obtain ⟨y, y', hy, hyw⟩ := hb.exists_sub hd hkl
  refine ⟨Value.pair x y, (x', y'), ?_, x, y, isPair_pair x y, hxw, hyw⟩
  unfold Vec.sub Vec.ofFormulas
  rw [x_of_isPair hab, y_of_isPair hab, x_of_isPair hcd, y_of_isPair hcd]
  show (Value.sub (.number a) (.number c) >>= fun x => Value.sub (.number b) (.number d) >>= fun y =>
    pure (Value.tuple [x, y])) = _
  rw [sub_number, sub_number, hx, hy]
  rfl

/-- The length of the step from one point to another is finite, and not too large. -/
theorem Value.Within.exists_hypot {d : Value R} {r : R × R} (hd : d.Within 2000000000 r) :
    ∃ q, Stands (Arithmetic.hypot r.1 r.2) false q ∧ q ≤ (3000000001 : Nat) := by
  obtain ⟨a, b, -, ha, hb⟩ := hd
  obtain ⟨m, p, -, hx, hp⟩ := ha.exists_stands
  obtain ⟨n, q, -, hy, hq⟩ := hb.exists_stands
  have hsquares : p * p + q * q ≤ ((3000000000 : Nat) : Rat) ^ 2 := by
    have hpp := mul_le_mul hp hp hx.nonneg (Nat.cast_nonneg _)
    have hqq := mul_le_mul hq hq hy.nonneg (Nat.cast_nonneg _)
    norm_num at hpp hqq ⊢
    linarith
  exact Lengths.hypot hx hy (by norm_num) hsquares

end

end FeynmanTikz
