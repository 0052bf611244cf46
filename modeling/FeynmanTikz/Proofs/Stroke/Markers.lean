/-
Markers sit on their edge.

Arrowheads have their tips, and crosses their centers, at points of the edge: at its end, at its start or in
its middle, as the arrow style says.

* `markerParameters`: the parameters at which the markers of an arrow style sit,
* `Edge.markers_placed`: whatever the settings, the markers that are computed sit there,
* `Edge.IsValid.exists_angle`: a valid edge has a direction at every parameter,
* `exists_arrowhead`, `exists_crossTicks`: shapes that are turned into a direction,
* `Edge.IsValid.exists_markers`: the markers of a valid edge can be computed.

Design notes.
* Nothing is said about the corners of an arrowhead or the ends of a tick, but that they are computed: they
  hang on sines and cosines.
-/
import FeynmanTikz.Proofs.Stroke.Polyline
import FeynmanTikz.Stroke.Marker

namespace FeynmanTikz

variable {R : Type} [Arithmetic R]

/-! ### Places -/

namespace Marker

/-- The position of a marker: the tip of an arrowhead, the center of a cross. -/
def position : Marker R → Value R
  | arrowhead tip _ _ => tip
  | cross center _ _ => center

def isCross : Marker R → Bool
  | arrowhead .. => false
  | cross .. => true

/-- The ends of the ticks of a cross. -/
def ends : Marker R → List (Value R)
  | arrowhead .. => []
  | cross _ first second => [first.1, first.2, second.1, second.2]

end Marker

/-- The parameters at which the markers of an arrow style sit, in the order in which they are drawn. -/
def markerParameters (arrow : Value R) : List (Value R) :=
  match arrow with
  | .text "forward" => [parameterEnd]
  | .text "backward" => [parameterStart]
  | .text "both" => [parameterEnd, parameterStart]
  | .text "mid-forward" | .text "mid-backward" | .text "mid-cross" => [parameterMid]
  | _ => []

/-- A marker sits at the point of an edge at a parameter, and its ticks have ends in the plane. -/
structure Edge.Holds (e : Edge R) (t : Value R) (m : Marker R) : Prop where
  position : (e.pointAt t).result = .ok m.position
  ends : ∀ v ∈ m.ends, ∃ x y, v = .tuple [x, y]

theorem arrowhead_placed {tip angle size setback halfWidth : Value R} {m : Marker R}
    (h : arrowhead tip angle size setback halfWidth = .ok m) :
    m.position = tip ∧ m.isCross = false ∧ m.ends = [] := by
  obtain ⟨_, -, h⟩ := bind_eq_ok.1 h
  obtain ⟨_, -, h⟩ := bind_eq_ok.1 h
  obtain ⟨_, -, h⟩ := bind_eq_ok.1 h
  obtain ⟨_, -, h⟩ := bind_eq_ok.1 h
  obtain ⟨_, -, h⟩ := bind_eq_ok.1 h
  obtain ⟨_, -, h⟩ := bind_eq_ok.1 h
  obtain ⟨_, -, h⟩ := bind_eq_ok.1 h
  cases h
  exact ⟨rfl, rfl, rfl⟩

theorem tick_ends {center angle halfLength : Value R} {s : Value R × Value R}
    (h : tick center angle halfLength = .ok s) : ∀ v ∈ [s.1, s.2], ∃ x y, v = .tuple [x, y] := by
  obtain ⟨d, -, h⟩ := bind_eq_ok.1 h
  obtain ⟨first, hfirst, h⟩ := bind_eq_ok.1 h
  obtain ⟨second, hsecond, ⟨⟩⟩ := bind_eq_ok.1 h
  have hpair {x y : Computed R} {v : Value R} (hv : Vec.ofFormulas x y = .ok v) : ∃ a b, v = .tuple [a, b] := by
    obtain ⟨a, -, hv⟩ := bind_eq_ok.1 hv
    obtain ⟨b, -, ⟨⟩⟩ := bind_eq_ok.1 hv
    exact ⟨a, b, rfl⟩
  simp only [List.forall_mem_cons, List.not_mem_nil, false_imp_iff, implies_true, and_true]
  exact ⟨hpair hfirst, hpair hsecond⟩

theorem crossTicks_placed {center angle halfLength : Value R} {m : Marker R}
    (h : crossTicks center angle halfLength = .ok m) :
    m.position = center ∧ m.isCross = true ∧ ∀ v ∈ m.ends, ∃ x y, v = .tuple [x, y] := by
  obtain ⟨_, -, h⟩ := bind_eq_ok.1 h
  obtain ⟨first, hfirst, h⟩ := bind_eq_ok.1 h
  obtain ⟨_, -, h⟩ := bind_eq_ok.1 h
  obtain ⟨second, hsecond, ⟨⟩⟩ := bind_eq_ok.1 h
  exact ⟨rfl, rfl, List.forall_mem_append.2 ⟨tick_ends hfirst, tick_ends hsecond⟩⟩

namespace Edge

variable {e : Edge R} {s : Given R (Strokes R)} {t : Value R}

theorem head_placed {reversed : Bool} {m : Marker R} (h : (e.head s t reversed).result = .ok m) :
    e.Holds t m ∧ m.isCross = false := by
  unfold head at h
  simp only [Logged.result_bind, bind_eq_ok] at h
  obtain ⟨_, -, tip, htip, _, -, h⟩ := h
  obtain ⟨hposition, hcross, hends⟩ := arrowhead_placed h
  exact ⟨⟨hposition ▸ htip, by simp [hends]⟩, hcross⟩

/-- The markers of an edge sit where the arrow style says.  All of them are arrowheads, or there is a cross
in the middle. -/
theorem markers_placed {style : Style R} (hstyle : e.drawn = .ok style) {ms : List (Marker R)}
    (h : (e.markers s).result = .ok ms) :
    List.Forall₂ (fun t m => e.Holds t m ∧ (m.isCross = true ↔ style.arrow = .text "mid-cross"))
      (markerParameters style.arrow) ms := by
  obtain ⟨_, _, _, arrow⟩ := style
  unfold markers at h
  rw [Logged.result_bind] at h
  change (e.drawn >>= _) = _ at h
  rw [hstyle, ok_bind] at h
  dsimp only at h ⊢
  have hhead {t : Value R} {reversed : Bool} {m : Marker R} (hm : (e.head s t reversed).result = .ok m)
      {name : String} (hne : name ≠ "mid-cross") :
      e.Holds t m ∧ (m.isCross = true ↔ (.text name : Value R) = .text "mid-cross") := by
    obtain ⟨hholds, hcross⟩ := head_placed hm
    exact ⟨hholds, iff_of_false (by simp [hcross]) (by simp [hne])⟩
  have hsingle {t : Value R} {reversed : Bool} {name : String} (hne : name ≠ "mid-cross")
      (h : (do return [← e.head s t reversed] : Logged R (List (Marker R))).result = .ok ms) :
      List.Forall₂ (fun t m => e.Holds t m ∧
        (m.isCross = true ↔ (.text name : Value R) = .text "mid-cross")) [t] ms := by
    rw [Logged.result_bind] at h
    obtain ⟨m, hm, ⟨⟩⟩ := bind_eq_ok.1 h
    exact .cons (hhead hm hne) .nil
  split at h
  · cases h
    exact .nil
  · exact hsingle (by decide) h
  · exact hsingle (by decide) h
  · simp only [Logged.result_bind, bind_eq_ok] at h
    obtain ⟨forward, hforward, backward, hbackward, ⟨⟩⟩ := h
    exact .cons (hhead hforward (by decide)) (.cons (hhead hbackward (by decide)) .nil)
  · exact hsingle (by decide) h
  · exact hsingle (by decide) h
  · simp only [Logged.result_bind, bind_eq_ok] at h
    obtain ⟨center, hcenter, _, -, _, -, m, hm, ⟨⟩⟩ := h
    obtain ⟨hposition, hcross, hends⟩ := crossTicks_placed hm
    exact .cons ⟨⟨hposition ▸ hcenter, hends⟩, iff_of_true hcross rfl⟩ .nil
  · cases h

end Edge

/-! ### Formulas -/

/-- What a function has at a number that is not infinite. -/
theorem trigonometric_real (f : R → R) {θ : R} (h : IsTame θ) :
    trigonometric f (.real θ) = .ok (.real (f θ)) := by
  have hreal : (Value.real θ : Value R).expectReal = .ok θ := rfl
  unfold trigonometric
  rw [hreal, ok_bind]
  split
  · rename_i n hn
    exact absurd hn (h n)
  · rfl

theorem cosine_isReal {θ : R} (h : IsTame θ) : (cosine (.real θ) : Computed R).IsReal :=
  ⟨_, trigonometric_real Arithmetic.cos h⟩

theorem sine_isReal {θ : R} (h : IsTame θ) : (sine (.real θ) : Computed R).IsReal :=
  ⟨_, trigonometric_real Arithmetic.sin h⟩

theorem Computed.IsReal.sub {a b : Computed R} (ha : a.IsReal) (hb : b.Fits) : (a - b).IsReal :=
  ha.both Value.sub_number hb

omit [Arithmetic R] in
theorem Computed.IsReal.exists_result {a : Computed R} (h : a.IsReal) : ∃ x : R, a.result = .ok (.real x) := by
  obtain ⟨x, rfl⟩ := h
  exact ⟨x, rfl⟩

/-- A point some way along a direction. -/
theorem exists_along (x y w : R) {θ : R} (h : IsTame θ) :
    ∃ a b : R, along (.real x) (.real y) (.real θ) (.real w) = .ok (Value.pair (.real a) (.real b)) :=
  Vec.ofFormulas_real ((Computed.isReal_real x).add ((cosine_isReal h).mul (Computed.isReal_real w).fits).fits)
    ((Computed.isReal_real y).add ((sine_isReal h).mul (Computed.isReal_real w).fits).fits)

/-- The ends of a tick. -/
theorem exists_tick (x y w : R) {θ : R} (h : IsTame θ) :
    ∃ s, tick (Value.pair (.real x) (.real y)) (.real θ) (.real w) = .ok s := by
  obtain ⟨a, b, hd⟩ := Vec.ofFormulas_real ((cosine_isReal h).mul (Computed.isReal_real w).fits)
    ((sine_isReal h).mul (Computed.isReal_real w).fits)
  exact ⟨_, bind_eq_ok.2 ⟨_, hd, bind_eq_ok.2 ⟨_, rfl, bind_eq_ok.2 ⟨_, rfl, rfl⟩⟩⟩⟩

/-! ### Directions -/

section

variable {ρ : Rat → Rat} [Rounds R ρ]

include ρ

/-- The difference of two coordinates becomes a number. -/
theorem IsCoordinate.exists_sub {a b : Scalar R} (ha : IsCoordinate a) (hb : IsCoordinate b) :
    ∃ c, a.sub b = .ok c ∧ c.Fits := by
  obtain ⟨x, hx⟩ := Measure.exists_within (m := .abscissa) ha
  obtain ⟨y, hy⟩ := Measure.exists_within (m := .abscissa) hb
  obtain ⟨c, z, hc, hz⟩ := hx.exists_combine hy (by norm_num) (fun m n => m.natAbs_sub_le n) (· - ·)
  exact ⟨c, hc, z, hz⟩

/-- The step from one position to another. -/
theorem IsPosition.sub_fits {u v : Value R} (hu : IsPosition u) (hv : IsPosition v) :
    (u.x - v.x).Fits ∧ (u.y - v.y).Fits := by
  obtain ⟨a, b, hab, ha, hb⟩ := hu
  obtain ⟨c, d, hcd, hc, hd⟩ := hv
  obtain ⟨x, hx, hxfits⟩ := ha.exists_sub hc
  obtain ⟨y, hy, hyfits⟩ := hb.exists_sub hd
  rw [x_of_isPair hab, y_of_isPair hab, x_of_isPair hcd, y_of_isPair hcd]
  refine ⟨⟨x, ?_, hxfits⟩, y, ?_, hyfits⟩
  · show Value.sub (.number a) (.number c) = _
    rw [Value.sub_number, hx]
    rfl
  · show Value.sub (.number b) (.number d) = _
    rw [Value.sub_number, hy]
    rfl

omit ρ [Rounds R ρ] in
theorem Vec.ofFormulas_reads {x y : Computed R} (hx : x.Fits) (hy : y.Fits) :
    ∃ v p, Vec.ofFormulas x y = .ok v ∧ v.Reads p := by
  obtain ⟨a, rfl, r, hr⟩ := hx
  obtain ⟨b, rfl, q, hq⟩ := hy
  exact ⟨_, (r, q), rfl, a, b, isPair_pair a b, hr, hq⟩

/-- The derivative of a curve whose control points have been checked. -/
theorem Cubic.exists_tangent {c : Cubic R} (h₀ : IsPosition c.p0) (h₁ : IsPosition c.p1) (h₂ : IsPosition c.p2)
    (h₃ : IsPosition c.p3) (t : R) : ∃ d p, c.tangent (.real t) = .ok d ∧ d.Reads p := by
  obtain ⟨hx₁, hy₁⟩ := h₁.sub_fits h₀
  obtain ⟨hx₂, hy₂⟩ := h₂.sub_fits h₁
  obtain ⟨hx₃, hy₃⟩ := h₃.sub_fits h₂
  have hsum (w₀ w₁ w₂ : R) {p₀ p₁ p₂ p₃ : Computed R} (hp₁ : (p₁ - p₀).Fits) (hp₂ : (p₂ - p₁).Fits)
      (hp₃ : (p₃ - p₂).Fits) : (weightedSteps (.real w₀) (.real w₁) (.real w₂) p₀ p₁ p₂ p₃).Fits := by
    have term (w : R) {p : Computed R} (hp : p.Fits) : (Computed.of (.real w) * p).IsReal :=
      (Computed.isReal_real w).mul hp
    exact (((term w₀ hp₁).add (term w₁ hp₂).fits).add (term w₂ hp₃).fits).fits
  exact Vec.ofFormulas_reads (hsum _ _ _ hx₁ hx₂ hx₃) (hsum _ _ _ hy₁ hy₂ hy₃)

omit ρ [Rounds R ρ] in
/-- Without the journal only the formulas for the chord and for the kind of the edge are left. -/
theorem Edge.result_tangentAt (e : Edge R) (t : Value R) : (e.tangentAt t).result = (do
    let chord ← Vec.normalize (← Vec.sub e.finish e.start)
    if e.isCurve then Vec.normalize (← e.cubic.tangent t) chord else return chord) := by
  unfold Edge.tangentAt
  simp only [Logged.result_bind, result_lift]
  refine bind_congr fun along => bind_congr fun chord => ?_
  show (if e.isCurve = true then _ else _ : Logged R (Value R)).result = _
  split
  · simp only [Logged.result_bind, result_lift]
    rfl
  · rfl

theorem Edge.IsValid.exists_tangent {e : Edge R} (h : e.IsValid) (t : R) :
    ∃ d q, (e.tangentAt (.real t)).result = .ok d ∧ coordinates d = .ok q := by
  obtain ⟨hx, hy⟩ := h.finish.sub_fits h.start
  obtain ⟨along, p, halong, hreads⟩ := Vec.ofFormulas_reads hx hy
  obtain ⟨chord, q, hchord, hq⟩ := hreads.exists_normalize exists_coordinates_unitX
  rw [Edge.result_tangentAt, show Vec.sub e.finish e.start = .ok along from halong, ok_bind, hchord, ok_bind]
  rcases h.isCurve_cases with hstraight | ⟨hcurve, hcontrol⟩
  · rw [hstraight]
    exact ⟨chord, q, rfl, hq⟩
  · obtain ⟨d, r, hd, hr⟩ := e.cubic.exists_tangent h.start hcontrol hcontrol h.finish t
    obtain ⟨w, q', hw, hq'⟩ := hr.exists_normalize ⟨q, hq⟩
    rw [hcurve]
    exact ⟨w, q', bind_eq_ok.2 ⟨d, hd, hw⟩, hq'⟩

/-- A valid edge has a direction at every parameter. -/
theorem Edge.IsValid.exists_angle {e : Edge R} (h : e.IsValid) (t : R) :
    ∃ y x : R, (e.angleAt (.real t)).result = .ok (Arithmetic.atan2 y x) := by
  obtain ⟨d, q, hd, hq⟩ := h.exists_tangent t
  unfold coordinates at hq
  obtain ⟨vx, hvx, hq⟩ := bind_eq_ok.1 hq
  obtain ⟨x, hx, hq⟩ := bind_eq_ok.1 hq
  obtain ⟨vy, hvy, hq⟩ := bind_eq_ok.1 hq
  obtain ⟨y, hy, -⟩ := bind_eq_ok.1 hq
  refine ⟨y, x, ?_⟩
  unfold Edge.angleAt
  simp only [Logged.result_bind, result_lift]
  exact bind_eq_ok.2 ⟨d, hd, bind_eq_ok.2 ⟨vx, hvx, bind_eq_ok.2 ⟨vy, hvy, bind_eq_ok.2 ⟨y, hy,
    bind_eq_ok.2 ⟨x, hx, rfl⟩⟩⟩⟩⟩

/-! ### Shapes -/

/-- The sizes of markers are numbers of type `R`. -/
structure Strokes.HasSizes (s : Strokes R) : Prop where
  arrowSize : ∃ x : R, s.arrowSize = .real x
  arrowSetback : ∃ x : R, s.arrowSetback = .real x
  arrowHalfWidth : ∃ x : R, s.arrowHalfWidth = .real x
  crossHalfLength : ∃ x : R, s.crossHalfLength = .real x

/-- Half of a right angle and a right one. -/
theorem piOver_eq {n : Int} (hn : n = 2 ∨ n = 4) :
    (piOver n : Computed R) = Computed.of (.real (Arithmetic.pi / Arithmetic.ofInt n)) := by
  have hstands : Stands (Arithmetic.ofInt n : R) (decide (n < 0)) n.natAbs := stands_ofInt (by omega)
  have hzero : (Arithmetic.reading (Arithmetic.ofInt n : R)).isZero = false := by
    rw [hstands.reading_eq]
    rcases hn with rfl | rfl <;> rfl
  have hdiv : Scalar.div (.real Arithmetic.pi) (.int n) =
      .ok (.real (Arithmetic.pi / Arithmetic.ofInt n : R)) := by
    show (do
      let y ← (Scalar.int n : Scalar R).toReal
      if (Arithmetic.reading y).isZero then .error .divisionByZero
      else .ok (.real (Arithmetic.pi / y)) : Except ArithmeticFault (Scalar R)) = _
    rw [show (Scalar.int n : Scalar R).toReal = .ok (Arithmetic.ofInt n) from if_pos hstands.isFinite, ok_bind,
      hzero]
    rfl
  show Value.div (.number (.real Arithmetic.pi)) (.number (.int n)) = _
  rw [Value.div_number, hdiv]
  rfl

end

section

variable {R : Type} [Arithmetic R] {ρ : Rat → Rat} [Angles R ρ]

include ρ

/-- An arrowhead that points along a direction. -/
theorem exists_arrowhead {θ : R} (h : IsDirection θ) (x y size setback halfWidth : R) :
    ∃ m, arrowhead (Value.pair (.real x) (.real y)) (.real θ) (.real size) (.real setback) (.real halfWidth) =
      .ok m := by
  have hθ : IsTame θ := h.isTame
  have hbase (a f : R) {c : Computed R} (hc : c.IsReal) :
      ∃ b : R, (Computed.of (.real a) - c * Computed.of (.real f) * Computed.of (.real setback)).result =
        .ok (.real b) :=
    ((Computed.isReal_real a).sub ((hc.mul (Computed.isReal_real f).fits).mul
      (Computed.isReal_real setback).fits).fits).exists_result
  obtain ⟨a, ha⟩ := hbase x size (cosine_isReal hθ)
  obtain ⟨b, hb⟩ := hbase y size (sine_isReal hθ)
  obtain ⟨_, _, hleft⟩ := exists_along a b (size * halfWidth) (h.isTame_add (.inl rfl))
  obtain ⟨_, _, hright⟩ := exists_along a b (size * halfWidth) (h.isTame_sub (.inl rfl))
  unfold arrowhead
  rw [piOver_eq (.inl rfl)]
  exact ⟨_, bind_eq_ok.2 ⟨_, ha, bind_eq_ok.2 ⟨_, hb, bind_eq_ok.2 ⟨_, rfl, bind_eq_ok.2 ⟨_, rfl,
    bind_eq_ok.2 ⟨_, hleft, bind_eq_ok.2 ⟨_, rfl, bind_eq_ok.2 ⟨_, hright, rfl⟩⟩⟩⟩⟩⟩⟩⟩

/-- A cross on a direction. -/
theorem exists_crossTicks {θ : R} (h : IsDirection θ) (x y halfLength : R) :
    ∃ m, crossTicks (Value.pair (.real x) (.real y)) (.real θ) (.real halfLength) = .ok m := by
  obtain ⟨_, hfirst⟩ := exists_tick x y halfLength (h.isTame_add (.inr rfl))
  obtain ⟨_, hsecond⟩ := exists_tick x y halfLength (h.isTame_sub (.inr rfl))
  unfold crossTicks
  rw [piOver_eq (.inr rfl)]
  exact ⟨_, bind_eq_ok.2 ⟨_, rfl, bind_eq_ok.2 ⟨_, hfirst,
    bind_eq_ok.2 ⟨_, rfl, bind_eq_ok.2 ⟨_, hsecond, rfl⟩⟩⟩⟩⟩

/-! ### Markers of a valid edge -/

namespace Edge.IsValid

variable {e : Edge R} {s : Strokes R}

theorem exists_head (he : e.IsValid) (hs : s.HasSizes) (t : R) (reversed : Bool) :
    ∃ m, (e.head s.given (.real t) reversed).result = .ok m := by
  obtain ⟨y, x, hangle⟩ := he.exists_angle t
  obtain ⟨a, b, hpoint⟩ := he.pointAt t
  obtain ⟨⟨size, hsize⟩, ⟨setback, hsetback⟩, ⟨halfWidth, hhalf⟩, -⟩ := hs
  have hdirection :
      IsDirection (Arithmetic.atan2 y x + if reversed then Arithmetic.pi else Arithmetic.ofInt 0) := by
    cases reversed with
    | false => exact .along y x
    | true => exact .against y x
  obtain ⟨m, hm⟩ := exists_arrowhead hdirection a b size setback halfWidth
  refine ⟨m, ?_⟩
  unfold Edge.head
  simp only [Logged.result_bind, result_lift]
  refine bind_eq_ok.2 ⟨_, hangle, bind_eq_ok.2 ⟨_, hpoint, bind_eq_ok.2 ⟨s, rfl, ?_⟩⟩⟩
  rw [hsize, hsetback, hhalf]
  exact hm

/-- The markers of a valid edge can be computed. -/
theorem exists_markers (he : e.IsValid) (hs : s.HasSizes) : ∃ ms, (e.markers s.given).result = .ok ms := by
  obtain ⟨style, hstyle, hvalid⟩ := he.style
  obtain ⟨arrow, harrow, hname⟩ := hvalid.arrow
  have hsingle (t : R) (reversed : Bool) : ∃ ms,
      (do return [← e.head s.given (.real t) reversed] : Logged R (List (Marker R))).result = .ok ms := by
    obtain ⟨m, hm⟩ := he.exists_head hs t reversed
    rw [Logged.result_bind, hm]
    exact ⟨_, rfl⟩
  unfold markers
  simp only [Logged.result_bind, result_lift, hstyle, ok_bind, hname]
  simp only [arrowStyles, List.mem_cons, List.not_mem_nil, or_false] at harrow
  rcases harrow with rfl | rfl | rfl | rfl | rfl | rfl | rfl
  · exact ⟨[], rfl⟩
  · exact hsingle _ _
  · exact hsingle _ _
  · obtain ⟨forward, hforward⟩ := he.exists_head hs (Arithmetic.ofInt 1) false
    obtain ⟨backward, hbackward⟩ := he.exists_head hs (Arithmetic.ofInt 0) true
    refine ⟨[forward, backward], ?_⟩
    simp only [Logged.result_bind]
    exact bind_eq_ok.2 ⟨_, hforward, bind_eq_ok.2 ⟨_, hbackward, rfl⟩⟩
  · exact hsingle _ _
  · exact hsingle _ _
  · obtain ⟨x, y, hcenter⟩ := he.pointAt (Arithmetic.ofDecimal 5 (-1))
    obtain ⟨b, a, hangle⟩ := he.exists_angle (Arithmetic.ofDecimal 5 (-1))
    obtain ⟨halfLength, hhalf⟩ := hs.crossHalfLength
    obtain ⟨m, hm⟩ := exists_crossTicks (.of b a) x y halfLength
    rw [← hhalf] at hm
    refine ⟨[m], ?_⟩
    simp only [Logged.result_bind, result_lift]
    exact bind_eq_ok.2 ⟨_, hcenter, bind_eq_ok.2 ⟨_, hangle, bind_eq_ok.2 ⟨s, rfl, bind_eq_ok.2 ⟨m, hm, rfl⟩⟩⟩⟩

end Edge.IsValid

end

end FeynmanTikz
