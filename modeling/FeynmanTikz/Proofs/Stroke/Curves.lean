/-
Edges over the rationals.

With exact numbers a position is a point of the rational plane, and every formula over coordinates comes to
the rational it would come to on paper.  The points of an edge are then sums of its corners with weights that
are not negative and add up to one.

* `Computed.Is c q`: a formula comes to a rational; `Value.At v p`: a position is a point,
* `chordAt`, `curveAt` and `slopeAt`: chords, curves and derivatives of curves over the rationals,
* `Vec.lerp_at`, `Cubic.At.evaluate`, `Cubic.At.tangent`: what is computed at a parameter,
* `Edge.Runs e p q control`: the corners of an edge, `Edge.Runs.pointAt`: its points,
* `between_strokeAt`: no point leaves the range of the corners,
* `strokeAt_add`: what moves all corners moves every point.
-/
import FeynmanTikz.Proofs.Diagram.Currency
import Mathlib.Data.Finset.Max
import Mathlib.Tactic.GCongr
import Mathlib.Tactic.Positivity

namespace FeynmanTikz

/-! ### Formulas -/

namespace Computed

variable {a b : Computed Exact} {p q : Rat}

/-- A formula comes to a number that stands for a rational. -/
def Is (c : Computed Exact) (q : Rat) : Prop := ∃ x : Scalar Exact, c = of (.number x) ∧ x.exact.value = q

theorem is_number (x : Scalar Exact) : (of (.number x)).Is x.exact.value := ⟨x, rfl, rfl⟩

/-- A constant of a formula. -/
theorem is_ofNat (n : Nat) : (of (.real (Arithmetic.ofInt n)) : Computed Exact).Is n :=
  ⟨_, rfl, Exact.value_ofInt n⟩

theorem Is.add (ha : a.Is p) (hb : b.Is q) : (a + b).Is (p + q) := by
  obtain ⟨x, rfl, rfl⟩ := ha
  obtain ⟨y, rfl, rfl⟩ := hb
  exact add_exact x y

theorem Is.sub (ha : a.Is p) (hb : b.Is q) : (a - b).Is (p - q) := by
  obtain ⟨x, rfl, rfl⟩ := ha
  obtain ⟨y, rfl, rfl⟩ := hb
  exact sub_exact x y

theorem Is.mul (ha : a.Is p) (hb : b.Is q) : (a * b).Is (p * q) := by
  obtain ⟨x, rfl, rfl⟩ := ha
  obtain ⟨y, rfl, rfl⟩ := hb
  obtain ⟨c, hc, hvalue⟩ := x.mul_exact y
  refine ⟨c, ?_, hvalue⟩
  rw [mul_of, Value.mul_number, hc]
  rfl

theorem Is.of_eq (ha : a.Is p) (h : p = q) : a.Is q := h ▸ ha

/-- What a formula comes to is a leaf of the next one. -/
theorem Is.exists_result (ha : a.Is p) : ∃ v, a.result = .ok v ∧ (of v).Is p := by
  obtain ⟨x, rfl, rfl⟩ := ha
  exact ⟨_, rfl, is_number x⟩

end Computed

/-! ### Points -/

namespace Value

variable {v : Value Exact} {p q : Rat × Rat}

/-- A position is a point of the rational plane. -/
def At (v : Value Exact) (p : Rat × Rat) : Prop :=
  ∃ a b, IsPair v a b ∧ a.exact.value = p.1 ∧ b.exact.value = p.2

theorem At.x (h : v.At p) : v.x.Is p.1 := by
  obtain ⟨a, b, hv, ha, -⟩ := h
  exact ⟨a, x_of_isPair hv, ha⟩

theorem At.y (h : v.At p) : v.y.Is p.2 := by
  obtain ⟨a, b, hv, -, hb⟩ := h
  exact ⟨b, y_of_isPair hv, hb⟩

theorem At.isSome (h : v.At p) : v.isSome = true := by
  obtain ⟨a, b, rfl | rfl, -⟩ := h <;> rfl

/-- A position is one point. -/
theorem At.unique (hp : v.At p) (hq : v.At q) : p = q := by
  obtain ⟨a, b, hab, ha, hb⟩ := hp
  obtain ⟨c, d, hcd, hc, hd⟩ := hq
  obtain ⟨rfl, rfl⟩ := hab.unique hcd
  exact Prod.ext (ha.symm.trans hc) (hb.symm.trans hd)

end Value

namespace Vec

variable {u v : Value Exact} {p q : Rat × Rat}

theorem ofFormulas_at {x y : Computed Exact} (hx : x.Is p.1) (hy : y.Is p.2) :
    ∃ v, ofFormulas x y = .ok v ∧ v.At p := by
  obtain ⟨a, rfl, ha⟩ := hx
  obtain ⟨b, rfl, hb⟩ := hy
  exact ⟨_, rfl, a, b, isPair_pair a b, ha, hb⟩

theorem add_at (hu : u.At p) (hv : v.At q) : ∃ w, add u v = .ok w ∧ w.At (p + q) :=
  ofFormulas_at (hu.x.add hv.x) (hu.y.add hv.y)

end Vec

/-! ### Chords and curves -/

/-- Where a chord is at parameter `t`. -/
def chordAt (p q t : Rat) : Rat := (1 - t) * p + t * q

/-- Where a curve is at parameter `t`, by the Bernstein weights of its control points. -/
def curveAt (p₀ p₁ p₂ p₃ t : Rat) : Rat :=
  (1 - t) ^ 3 * p₀ + 3 * (1 - t) ^ 2 * t * p₁ + 3 * (1 - t) * t ^ 2 * p₂ + t ^ 3 * p₃

/-- The derivative of a curve at parameter `t`. -/
def slopeAt (p₀ p₁ p₂ p₃ t : Rat) : Rat :=
  3 * (1 - t) ^ 2 * (p₁ - p₀) + 6 * (1 - t) * t * (p₂ - p₁) + 3 * t ^ 2 * (p₃ - p₂)

theorem Vec.lerp_at {u v : Value Exact} {p q : Rat × Rat} (hu : u.At p) (hv : v.At q) (t : Scalar Exact) :
    ∃ w, Vec.lerp u v (.number t) = .ok w ∧
      w.At (chordAt p.1 q.1 t.exact.value, chordAt p.2 q.2 t.exact.value) := by
  have ht := Computed.is_number t
  obtain ⟨s, hs, hweight⟩ := ((Computed.is_ofNat 1).sub ht).exists_result
  rw [Nat.cast_one] at hweight
  obtain ⟨w, hw, hpoint⟩ := ofFormulas_at (p := (_, _)) ((hweight.mul hu.x).add (ht.mul hv.x))
    ((hweight.mul hu.y).add (ht.mul hv.y))
  exact ⟨w, bind_eq_ok.2 ⟨s, hs, hw⟩, hpoint⟩

namespace Cubic

variable {c : Cubic Exact} {p₀ p₁ p₂ p₃ : Rat × Rat}

/-- The control points are points of the rational plane. -/
structure At (c : Cubic Exact) (p₀ p₁ p₂ p₃ : Rat × Rat) : Prop where
  p0 : c.p0.At p₀
  p1 : c.p1.At p₁
  p2 : c.p2.At p₂
  p3 : c.p3.At p₃

theorem At.evaluate (h : c.At p₀ p₁ p₂ p₃) (t : Scalar Exact) : ∃ v, c.evaluate (.number t) = .ok v ∧
    v.At (curveAt p₀.1 p₁.1 p₂.1 p₃.1 t.exact.value, curveAt p₀.2 p₁.2 p₂.2 p₃.2 t.exact.value) := by
  have ht := Computed.is_number t
  generalize t.exact.value = q at ht ⊢
  obtain ⟨u, hu, hus⟩ := ((Computed.is_ofNat 1).sub ht).exists_result
  obtain ⟨uu, huu, huus⟩ := (hus.mul hus).exists_result
  obtain ⟨tt, htt, htts⟩ := (ht.mul ht).exists_result
  obtain ⟨w₀, hw₀, hs₀⟩ := (huus.mul hus).exists_result
  obtain ⟨w₁, hw₁, hs₁⟩ := (((Computed.is_ofNat 3).mul huus).mul ht).exists_result
  obtain ⟨w₂, hw₂, hs₂⟩ := (((Computed.is_ofNat 3).mul hus).mul htts).exists_result
  obtain ⟨w₃, hw₃, hs₃⟩ := (htts.mul ht).exists_result
  have hsum {a₀ a₁ a₂ a₃ : Computed Exact} {q₀ q₁ q₂ q₃ : Rat} (h₀ : a₀.Is q₀) (h₁ : a₁.Is q₁)
      (h₂ : a₂.Is q₂) (h₃ : a₃.Is q₃) :
      (weighted w₀ w₁ w₂ w₃ a₀ a₁ a₂ a₃).Is (curveAt q₀ q₁ q₂ q₃ q) := by
    refine ((((hs₀.mul h₀).add (hs₁.mul h₁)).add (hs₂.mul h₂)).add (hs₃.mul h₃)).of_eq ?_
    unfold curveAt
    push_cast
    ring
  obtain ⟨v, hv, hpoint⟩ := Vec.ofFormulas_at (p := (_, _)) (hsum h.p0.x h.p1.x h.p2.x h.p3.x)
    (hsum h.p0.y h.p1.y h.p2.y h.p3.y)
  refine ⟨v, ?_, hpoint⟩
  unfold Cubic.evaluate
  exact bind_eq_ok.2 ⟨u, hu, bind_eq_ok.2 ⟨uu, huu, bind_eq_ok.2 ⟨tt, htt, bind_eq_ok.2 ⟨w₀, hw₀,
    bind_eq_ok.2 ⟨w₁, hw₁, bind_eq_ok.2 ⟨w₂, hw₂, bind_eq_ok.2 ⟨w₃, hw₃, hv⟩⟩⟩⟩⟩⟩⟩

theorem At.tangent (h : c.At p₀ p₁ p₂ p₃) (t : Scalar Exact) : ∃ v, c.tangent (.number t) = .ok v ∧
    v.At (slopeAt p₀.1 p₁.1 p₂.1 p₃.1 t.exact.value, slopeAt p₀.2 p₁.2 p₂.2 p₃.2 t.exact.value) := by
  have ht := Computed.is_number t
  generalize t.exact.value = q at ht ⊢
  obtain ⟨u, hu, hus⟩ := ((Computed.is_ofNat 1).sub ht).exists_result
  obtain ⟨w₀, hw₀, hs₀⟩ := (((Computed.is_ofNat 3).mul hus).mul hus).exists_result
  obtain ⟨w₁, hw₁, hs₁⟩ := (((Computed.is_ofNat 6).mul hus).mul ht).exists_result
  obtain ⟨w₂, hw₂, hs₂⟩ := (((Computed.is_ofNat 3).mul ht).mul ht).exists_result
  have hsum {a₀ a₁ a₂ a₃ : Computed Exact} {q₀ q₁ q₂ q₃ : Rat} (h₀ : a₀.Is q₀) (h₁ : a₁.Is q₁)
      (h₂ : a₂.Is q₂) (h₃ : a₃.Is q₃) :
      (weightedSteps w₀ w₁ w₂ a₀ a₁ a₂ a₃).Is (slopeAt q₀ q₁ q₂ q₃ q) := by
    refine (((hs₀.mul (h₁.sub h₀)).add (hs₁.mul (h₂.sub h₁))).add (hs₂.mul (h₃.sub h₂))).of_eq ?_
    unfold slopeAt
    push_cast
    ring
  obtain ⟨v, hv, hpoint⟩ := Vec.ofFormulas_at (p := (_, _)) (hsum h.p0.x h.p1.x h.p2.x h.p3.x)
    (hsum h.p0.y h.p1.y h.p2.y h.p3.y)
  refine ⟨v, ?_, hpoint⟩
  unfold Cubic.tangent
  exact bind_eq_ok.2 ⟨u, hu, bind_eq_ok.2 ⟨w₀, hw₀, bind_eq_ok.2 ⟨w₁, hw₁, bind_eq_ok.2 ⟨w₂, hw₂, hv⟩⟩⟩⟩

end Cubic

/-! ### Points of an edge -/

/-- Where a stroke from `p` to `q` is at parameter `t`: on the curve with the control point that is given, and
on the chord without one. -/
def strokeAt (p q : Rat) (control : Option Rat) (t : Rat) : Rat :=
  match control with
  | none => chordAt p q t
  | some c => curveAt p c c q t

/-- The point of a stroke at parameter `t`. -/
def strokePoint (p q : Rat × Rat) (control : Option (Rat × Rat)) (t : Rat) : Rat × Rat :=
  (strokeAt p.1 q.1 (control.map Prod.fst) t, strokeAt p.2 q.2 (control.map Prod.snd) t)

namespace Edge

/-- An edge runs from `p` to `q`, and is bent by a control point if there is one. -/
structure Runs (e : Edge Exact) (p q : Rat × Rat) (control : Option (Rat × Rat)) : Prop where
  start : e.start.At p
  finish : e.finish.At q
  bend : (e.isCurve = false ∧ control = none) ∨ ∃ c, e.isCurve = true ∧ control = some c ∧ e.control.At c

variable {e : Edge Exact} {p q : Rat × Rat} {control : Option (Rat × Rat)}

theorem Runs.pointAt (h : e.Runs p q control) (t : Scalar Exact) :
    ∃ v, (e.pointAt (.number t)).result = .ok v ∧ v.At (strokePoint p q control t.exact.value) := by
  rw [Edge.result_pointAt]
  rcases h.bend with ⟨hstraight, rfl⟩ | ⟨c, hcurve, rfl, hc⟩
  · rw [hstraight]
    exact Vec.lerp_at h.start h.finish t
  · rw [hcurve]
    exact Cubic.At.evaluate ⟨h.start, hc, hc, h.finish⟩ t

end Edge

/-! ### Between the corners -/

/-- A number lies between the least and the greatest of some numbers. -/
def Between (x : Rat) (ys : List Rat) : Prop := ∃ low ∈ ys, ∃ high ∈ ys, low ≤ x ∧ x ≤ high

/-- Some number of a list that is not empty is the least one, and some the greatest. -/
theorem between_of_bounds {x : Rat} {ys : List Rat} (hne : ys ≠ [])
    (hlow : ∀ low, (∀ y ∈ ys, low ≤ y) → low ≤ x) (hhigh : ∀ high, (∀ y ∈ ys, y ≤ high) → x ≤ high) :
    Between x ys := by
  have hnonempty : ys.toFinset.Nonempty := List.toFinset_nonempty_iff ys |>.2 hne
  obtain ⟨low, hl, hleast⟩ := ys.toFinset.exists_min_image id hnonempty
  obtain ⟨high, hh, hgreatest⟩ := ys.toFinset.exists_max_image id hnonempty
  refine ⟨low, List.mem_toFinset.1 hl, high, List.mem_toFinset.1 hh, ?_, ?_⟩
  · exact hlow low fun y hy => hleast y (List.mem_toFinset.2 hy)
  · exact hhigh high fun y hy => hgreatest y (List.mem_toFinset.2 hy)

section

variable {p q t : Rat} (h₀ : 0 ≤ t) (h₁ : t ≤ 1)

include h₀ h₁

theorem le_chordAt {low : Rat} (hp : low ≤ p) (hq : low ≤ q) : low ≤ chordAt p q t := by
  have hu : 0 ≤ 1 - t := sub_nonneg.2 h₁
  calc low = (1 - t) * low + t * low := by ring
    _ ≤ chordAt p q t := by
      unfold chordAt
      gcongr

/-- The weights are not negative, and their sum is one. -/
theorem le_curveAt {p₀ p₁ p₂ p₃ low : Rat} (hp₀ : low ≤ p₀) (hp₁ : low ≤ p₁) (hp₂ : low ≤ p₂)
    (hp₃ : low ≤ p₃) : low ≤ curveAt p₀ p₁ p₂ p₃ t := by
  have hu : 0 ≤ 1 - t := sub_nonneg.2 h₁
  calc low = (1 - t) ^ 3 * low + 3 * (1 - t) ^ 2 * t * low + 3 * (1 - t) * t ^ 2 * low + t ^ 3 * low := by ring
    _ ≤ curveAt p₀ p₁ p₂ p₃ t := by
      unfold curveAt
      gcongr

theorem le_strokeAt {control : Option Rat} {low : Rat} (h : ∀ x ∈ p :: q :: control.toList, low ≤ x) :
    low ≤ strokeAt p q control t := by
  have hp : low ≤ p := h p (by simp)
  have hq : low ≤ q := h q (by simp)
  cases control with
  | none => exact le_chordAt h₀ h₁ hp hq
  | some c =>
    have hc : low ≤ c := h c (by simp)
    exact le_curveAt h₀ h₁ hp hc hc hq

omit h₀ h₁ in
theorem strokeAt_neg (control : Option Rat) :
    strokeAt (-p) (-q) (control.map (- ·)) t = -strokeAt p q control t := by
  cases control with
  | none =>
    show chordAt _ _ _ = -chordAt _ _ _
    unfold chordAt
    ring
  | some c =>
    show curveAt _ _ _ _ _ = -curveAt _ _ _ _ _
    unfold curveAt
    ring

theorem strokeAt_le {control : Option Rat} {high : Rat} (h : ∀ x ∈ p :: q :: control.toList, x ≤ high) :
    strokeAt p q control t ≤ high := by
  have hneg : -high ≤ strokeAt (-p) (-q) (control.map (- ·)) t := by
    refine le_strokeAt h₀ h₁ ?_
    cases control <;> simpa using h
  rw [strokeAt_neg] at hneg
  linarith

theorem between_strokeAt (p q : Rat) (control : Option Rat) :
    Between (strokeAt p q control t) (p :: q :: control.toList) :=
  between_of_bounds (List.cons_ne_nil _ _) (fun _ => le_strokeAt h₀ h₁) fun _ => strokeAt_le h₀ h₁

end

theorem abs_le_of_between {x bound : Rat} {ys : List Rat} (h : Between x ys) (hys : ∀ y ∈ ys, |y| ≤ bound) :
    |x| ≤ bound := by
  obtain ⟨low, hl, high, hh, hlow, hhigh⟩ := h
  obtain ⟨hfloor, -⟩ := abs_le.1 (hys low hl)
  obtain ⟨-, hceil⟩ := abs_le.1 (hys high hh)
  exact abs_le.2 ⟨by linarith, by linarith⟩

/-! ### Motions -/

/-- What moves all corners moves every point. -/
theorem strokeAt_add (p q t δ : Rat) (control : Option Rat) :
    strokeAt (p + δ) (q + δ) (control.map (· + δ)) t = strokeAt p q control t + δ := by
  cases control with
  | none =>
    show chordAt _ _ _ = chordAt _ _ _ + _
    unfold chordAt
    ring
  | some c =>
    show curveAt _ _ _ _ _ = curveAt _ _ _ _ _ + _
    unfold curveAt
    ring

theorem strokePoint_add (p q : Rat × Rat) (t : Rat) (δ : Rat × Rat) (control : Option (Rat × Rat)) :
    strokePoint (p + δ) (q + δ) (control.map (· + δ)) t = strokePoint p q control t + δ := by
  have hfst : (control.map (· + δ)).map Prod.fst = (control.map Prod.fst).map (· + δ.1) := by
    cases control <;> rfl
  have hsnd : (control.map (· + δ)).map Prod.snd = (control.map Prod.snd).map (· + δ.2) := by
    cases control <;> rfl
  unfold strokePoint
  rw [hfst, hsnd]
  exact Prod.ext (strokeAt_add ..) (strokeAt_add ..)

/-! ### Valid edges -/

/-- A coordinate that has been checked is not too far from zero. -/
theorem IsCoordinate.abs_value_le {x : Scalar Exact} (h : IsCoordinate x) : |x.exact.value| ≤ maxMagnitude := by
  have hnear := h.near
  rw [Scalar.reading_exact] at hnear
  have hle : ¬maxMagnitude < x.exact.value.abs := of_decide_eq_false hnear
  have habs : |x.exact.value| = x.exact.magnitude := by
    unfold Exact.value
    split
    · rw [abs_neg, abs_of_nonneg x.exact.nonneg]
    · rw [abs_of_nonneg x.exact.nonneg]
  rw [habs, ← x.exact.abs_value]
  exact not_lt.1 hle

theorem IsPosition.exists_at {v : Value Exact} (h : IsPosition v) :
    ∃ p, v.At p ∧ |p.1| ≤ maxMagnitude ∧ |p.2| ≤ maxMagnitude := by
  obtain ⟨a, b, hv, ha, hb⟩ := h
  exact ⟨(_, _), ⟨a, b, hv, rfl, rfl⟩, ha.abs_value_le, hb.abs_value_le⟩

/-- A valid edge has corners, whose coordinates are not too far from zero. -/
theorem Edge.IsValid.exists_runs {e : Edge Exact} (h : e.IsValid) : ∃ p q control, e.Runs p q control ∧
    (∀ x ∈ p.1 :: q.1 :: (control.map Prod.fst).toList, |x| ≤ maxMagnitude) ∧
    ∀ y ∈ p.2 :: q.2 :: (control.map Prod.snd).toList, |y| ≤ maxMagnitude := by
  obtain ⟨p, hp, hpx, hpy⟩ := h.start.exists_at
  obtain ⟨q, hq, hqx, hqy⟩ := h.finish.exists_at
  rcases h.isCurve_cases with hstraight | ⟨hcurve, hcontrol⟩
  · exact ⟨p, q, none, ⟨hp, hq, .inl ⟨hstraight, rfl⟩⟩, by simp [hpx, hqx], by simp [hpy, hqy]⟩
  · obtain ⟨c, hc, hcx, hcy⟩ := hcontrol.exists_at
    exact ⟨p, q, some c, ⟨hp, hq, .inr ⟨c, hcurve, rfl, hc⟩⟩, by simp [hpx, hqx, hcx],
      by simp [hpy, hqy, hcy]⟩

end FeynmanTikz
