/-
Where a label stands can always be computed.

The position of a bound label is a formula over the coordinates of its edge, the parameter of its
anchor and its offset.  A parameter is a number of type `R`, and a coordinate that has been checked
fits into `R`, so no step of the formula fails.

* `Computed.IsReal` and `Computed.Fits`: formulas that come to a number of type `R`, or to one that
  fits into `R`; `IsReal.mul` and its companions compose them,
* `Edge.IsValid.pointAt`: every point of a valid edge is a pair of numbers of type `R`,
* `anchorPoint_real`: so is every anchor of one,
* `resolve_of_unbound`, `resolve_of_bound`, `resolve_real`: where a label stands, by its binding,
* `resolve_eq_of_find?`: that depends on the edge it is bound to, and on no other.

Design notes.
* Nothing is said about where a label stands: sums and products of type `R` are not bounded, and may
  be infinite or undefined.
-/
import FeynmanTikz.Proofs.Diagram.Identity

namespace FeynmanTikz

variable {R : Type} [Arithmetic R]

/-! ### Formulas over numbers -/

/-- Whether a number is one of type `R`, or a whole number that fits into `R`. -/
def Scalar.Fits (x : Scalar R) : Prop := ∃ r, x.toReal = .ok r

/-- Whatever has been found to be finite fits. -/
theorem Scalar.fits_of_isFiniteNumber {x : Scalar R} {f : Bool} (h : isFiniteNumber x = .ok f) :
    x.Fits := by
  obtain ⟨r, hr, -⟩ := bind_eq_ok.1 h
  cases hx : x.toReal with
  | error e =>
    rw [hx] at hr
    cases hr
  | ok r => exact ⟨r, hx⟩

theorem IsCoordinate.fits {x : Scalar R} (h : IsCoordinate x) : x.Fits :=
  Scalar.fits_of_isFiniteNumber h.finite

/-- An operation on a number of type `R` and one that fits into `R` is carried out in `R`. -/
theorem Scalar.combine_real {x : Scalar R} (hx : x.Fits) (onInt : Int → Int → Int)
    (onReal : R → R → R) (a : R) : ∃ r, combine onInt onReal (.real a) x = .ok (.real r) := by
  obtain ⟨b, hb⟩ := hx
  cases x with
  | real x => exact ⟨onReal a x, rfl⟩
  | int n =>
    refine ⟨onReal a b, ?_⟩
    show (do
      let y ← (Scalar.int n : Scalar R).toReal
      Except.ok (.real (onReal a y)) : Except ArithmeticFault (Scalar R)) = _
    rw [hb]
    rfl

namespace Computed

/-- Whether a formula comes to a number of type `R`. -/
def IsReal (c : Computed R) : Prop := ∃ r : R, c = of (.number (.real r))

/-- Whether a formula comes to a number that fits into `R`. -/
def Fits (c : Computed R) : Prop := ∃ x : Scalar R, c = of (.number x) ∧ x.Fits

variable {a b : Computed R}

omit [Arithmetic R] in
theorem isReal_real (r : R) : IsReal (of (.number (.real r))) := ⟨r, rfl⟩

theorem IsReal.fits (h : a.IsReal) : a.Fits := by
  obtain ⟨r, rfl⟩ := h
  exact ⟨_, rfl, r, rfl⟩

/-- An operation that is one of scalars where both operands are numbers. -/
theorem IsReal.both {f : Value R → Value R → Except (Fault R) (Value R)} {onInt : Int → Int → Int}
    {onReal : R → R → R} (hf : ∀ x y : Scalar R, f (.number x) (.number y) =
      (liftArithmetic (Scalar.combine onInt onReal x y)).map Value.number)
    (ha : a.IsReal) (hb : b.Fits) : IsReal (Computed.both f a b) := by
  obtain ⟨s, rfl⟩ := ha
  obtain ⟨x, rfl, hx⟩ := hb
  obtain ⟨r, hr⟩ := Scalar.combine_real hx onInt onReal s
  refine ⟨r, ?_⟩
  show f (.number (.real s)) (.number x) = _
  rw [hf, hr]
  rfl

theorem IsReal.add (ha : a.IsReal) (hb : b.Fits) : (a + b).IsReal := ha.both Value.add_number hb

theorem IsReal.mul (ha : a.IsReal) (hb : b.Fits) : (a * b).IsReal := ha.both Value.mul_number hb

end Computed

omit [Arithmetic R] in
/-- Two formulas that come to numbers of type `R` make a pair of them. -/
theorem Vec.ofFormulas_real {x y : Computed R} (hx : x.IsReal) (hy : y.IsReal) :
    ∃ a b : R, Vec.ofFormulas x y = .ok (Value.pair (.real a) (.real b)) := by
  obtain ⟨a, rfl⟩ := hx
  obtain ⟨b, rfl⟩ := hy
  exact ⟨a, b, rfl⟩

theorem IsPosition.fits {v : Value R} (h : IsPosition v) : v.x.Fits ∧ v.y.Fits := by
  obtain ⟨x, y, hv, hx, hy⟩ := h
  exact ⟨⟨x, x_of_isPair hv, hx.fits⟩, y, y_of_isPair hv, hy.fits⟩

/-! ### Points of an edge -/

/-- A point of a chord between positions that have been checked. -/
theorem Vec.lerp_real {a b : Value R} (ha : IsPosition a) (hb : IsPosition b) (t : R) :
    ∃ x y : R, Vec.lerp a b (.real t) = .ok (Value.pair (.real x) (.real y)) := by
  obtain ⟨hax, hay⟩ := ha.fits
  obtain ⟨hbx, hby⟩ := hb.fits
  -- The weights are numbers of type `R`, so both sums are.
  refine Vec.ofFormulas_real ?_ ?_
  · exact ((Computed.isReal_real _).mul hax).add ((Computed.isReal_real t).mul hbx).fits
  · exact ((Computed.isReal_real _).mul hay).add ((Computed.isReal_real t).mul hby).fits

/-- A sum of four coordinates with weights of type `R`. -/
theorem Cubic.weighted_real (w₀ w₁ w₂ w₃ : R) {p₀ p₁ p₂ p₃ : Computed R} (h₀ : p₀.Fits)
    (h₁ : p₁.Fits) (h₂ : p₂.Fits) (h₃ : p₃.Fits) :
    (Cubic.weighted (.real w₀) (.real w₁) (.real w₂) (.real w₃) p₀ p₁ p₂ p₃).IsReal := by
  have term (w : R) {p : Computed R} (hp : p.Fits) : (Computed.of (.real w) * p).IsReal :=
    (Computed.isReal_real w).mul hp
  exact (((term w₀ h₀).add (term w₁ h₁).fits).add (term w₂ h₂).fits).add (term w₃ h₃).fits

/-- A point of a curve whose control points have been checked. -/
theorem Cubic.evaluate_real {c : Cubic R} (h₀ : IsPosition c.p0) (h₁ : IsPosition c.p1)
    (h₂ : IsPosition c.p2) (h₃ : IsPosition c.p3) (t : R) :
    ∃ x y : R, c.evaluate (.real t) = .ok (Value.pair (.real x) (.real y)) := by
  refine Vec.ofFormulas_real ?_ ?_
  · exact Cubic.weighted_real _ _ _ _ h₀.fits.1 h₁.fits.1 h₂.fits.1 h₃.fits.1
  · exact Cubic.weighted_real _ _ _ _ h₀.fits.2 h₁.fits.2 h₂.fits.2 h₃.fits.2

/-- Without the journal only the formula for the kind of the edge is left. -/
theorem Edge.result_pointAt (e : Edge R) (t : Value R) : (e.pointAt t).result =
    if e.isCurve then e.cubic.evaluate t else Vec.lerp e.start e.finish t := by
  unfold Edge.pointAt Edge.recordIsCurve Edge.recordCubic recorded
  rw [Logged.result_bind]
  show (if e.isCurve then _ else _ : Logged R (Value R)).result = _
  split <;> rfl

/-- A valid edge is bent just if it has a control point. -/
theorem Edge.IsValid.isCurve_cases {e : Edge R} (h : e.IsValid) :
    e.isCurve = false ∨ (e.isCurve = true ∧ IsPosition e.control) := by
  unfold Edge.isCurve
  rcases h.bend with ⟨-, hcontrol⟩ | ⟨hkind, hcontrol⟩
  · rw [hcontrol]
    exact .inl (Bool.and_false _)
  · refine .inr ⟨?_, hcontrol⟩
    rw [hkind]
    obtain ⟨x, y, h | h, -⟩ := hcontrol <;> rw [h] <;> rfl

/-- Every point of a valid edge is a pair of numbers of type `R`. -/
theorem Edge.IsValid.pointAt {e : Edge R} (h : e.IsValid) (t : R) :
    ∃ x y : R, (e.pointAt (.real t)).result = .ok (Value.pair (.real x) (.real y)) := by
  rw [Edge.result_pointAt]
  rcases h.isCurve_cases with hstraight | ⟨hcurve, hcontrol⟩
  · rw [hstraight]
    exact Vec.lerp_real h.start h.finish t
  · rw [hcurve]
    exact Cubic.evaluate_real h.start hcontrol hcontrol h.finish t

/-- A known anchor has a parameter of type `R`. -/
theorem anchorParameter_real {v : Value R} (h : ∃ t ∈ anchors, v = .text t) :
    ∃ t : R, anchorParameter v = .ok (.real t) := by
  obtain ⟨t, ht, rfl⟩ := h
  simp only [anchors, List.mem_cons, List.not_mem_nil, or_false] at ht
  rcases ht with rfl | rfl | rfl
  all_goals exact ⟨_, rfl⟩

namespace Diagram

theorem anchorPoint_real {e : Edge R} (he : e.IsValid) {anchor : Value R}
    (ha : ∃ t ∈ anchors, anchor = .text t) :
    ∃ x y : R, (anchorPoint (.edge e) anchor).result = .ok (Value.pair (.real x) (.real y)) := by
  obtain ⟨t, ht⟩ := anchorParameter_real (R := R) ha
  obtain ⟨x, y, hp⟩ := he.pointAt t
  refine ⟨x, y, ?_⟩
  unfold anchorPoint
  rw [Logged.result_bind]
  exact bind_eq_ok.2 ⟨_, ht, hp⟩

/-! ### Where a label stands -/

theorem bound?_of_isSome {l : Label R} (h : l.binding.isSome = false) : l.bound? = .ok none := by
  unfold Label.bound?
  cases hb : l.binding with
  | none => rfl
  | _ =>
    rw [hb] at h
    cases h

/-- A label that is bound to nothing stands where it was. -/
theorem resolve_of_unbound (d : Diagram R) {l : Label R} (h : l.bound? = .ok none) :
    (d.resolve l).result = .ok l.position := by
  unfold resolve
  rw [Logged.result_bind]
  show (l.bound? >>= _) = _
  rw [h]
  rfl

/-- A bound label stands at the anchor of its edge and the offset. -/
theorem resolve_of_bound (d : Diagram R) {l : Label R} {b : Binding R} {k : Key} {e : Element R}
    (h : l.bound? = .ok (some b)) (hk : b.target.expectKey = .ok k)
    (he : d.edges.find? k = some e) :
    (d.resolve l).result = (anchorPoint e b.anchor).result >>= fun p => Vec.add p b.offset := by
  unfold resolve
  simp only [Logged.result_bind]
  show (l.bound? >>= _) = _
  rw [h, ok_bind]
  dsimp only
  rw [Logged.result_bind]
  show (b.target.expectKey >>= _) = _
  rw [hk, ok_bind, he]
  exact Logged.result_bind _ _

/-- A label that is bound to a valid edge stands at a pair of numbers of type `R`. -/
theorem resolve_real (d : Diagram R) {l : Label R} {b : Binding R} {k : Key} {e : Edge R}
    (h : l.bound? = .ok (some b)) (hk : b.target.expectKey = .ok k)
    (he : d.edges.find? k = some (.edge e)) (hv : e.IsValid)
    (ha : ∃ t ∈ anchors, b.anchor = .text t) (ho : IsPosition b.offset) :
    ∃ x y : R, (d.resolve l).result = .ok (Value.pair (.real x) (.real y)) := by
  obtain ⟨x, y, hp⟩ := anchorPoint_real hv ha
  -- The sum of a pair of numbers of type `R` and an offset that has been checked.
  obtain ⟨ox, oy⟩ := ho.fits
  rw [d.resolve_of_bound h hk he, hp, ok_bind]
  exact Vec.ofFormulas_real ((Computed.isReal_real x).add ox) ((Computed.isReal_real y).add oy)

/-- A label stands where it stood as long as nothing else is found under the id of its edge. -/
theorem resolve_eq_of_find? {d t : Diagram R} {l : Label R}
    (h : ∀ b k, l.bound? = .ok (some b) → b.target.expectKey = .ok k →
      t.edges.find? k = d.edges.find? k) : (t.resolve l).result = (d.resolve l).result := by
  unfold resolve
  simp only [Logged.result_bind]
  show (l.bound? >>= _) = (l.bound? >>= _)
  rcases hb : l.bound? with f | _ | b
  · rfl
  · rfl
  · rw [ok_bind, ok_bind]
    dsimp only
    rw [Logged.result_bind, Logged.result_bind]
    show (b.target.expectKey >>= _) = (b.target.expectKey >>= _)
    rcases hk : b.target.expectKey with f | k
    · rfl
    · rw [ok_bind, ok_bind, h b k hb hk]

end Diagram

end FeynmanTikz
