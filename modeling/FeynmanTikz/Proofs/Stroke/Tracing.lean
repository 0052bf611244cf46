/-
Samples lie on their curve.

A sampler multiplies a table of weights by the control points, and an evaluator adds up the products one by
one.  Over the rationals both come to the Bernstein sum, at every parameter.  So the polyline of a curve follows
the curve that its anchors and its markers are on.

* `Value.At.exists_reads`: the point of a position is what its cells are read as,
* `planePoint_blend`, `planePoint_blendSteps`: weights of a sampler,
* `Cubic.At.exists_samples`, `Cubic.At.exists_sampleTangents`: a sampler agrees with its evaluator,
* `exists_plainPath`: the vertices of a polyline, one for each parameter,
* `Edge.Traces`: vertices that lie on an edge, `Edge.MarksMiddle`: what there is in the middle of it,
* `samples_on_curve`: all of this, for every curve and any number of samples.

Design notes.
* The ends of a polyline are pinned, and are on the curve all the same.
* A whole number that takes more than 64 bits is read by one sampler and refused by the other one, and a
  polyline with too many vertices is refused.
-/
import FeynmanTikz.Proofs.Stroke.Curves
import FeynmanTikz.Proofs.Stroke.Markers

namespace FeynmanTikz

instance : Arrays Exact := .standard Exact

instance : LawfulArrays Exact := .of_standard

/-! ### Points that are read -/

/-- The point of the rational plane that two exact numbers stand for. -/
def planePoint (r : Exact × Exact) : Rat × Rat := (r.1.value, r.2.value)

theorem Scalar.toReal_exact (a : Scalar Exact) : a.toReal = .ok a.exact := by
  cases a <;> rfl

theorem Value.At.exists_reads {v : Value Exact} {p : Rat × Rat} (h : v.At p) :
    ∃ r, v.Reads r ∧ planePoint r = p := by
  obtain ⟨a, b, hv, ha, hb⟩ := h
  exact ⟨(a.exact, b.exact), ⟨a, b, hv, a.toReal_exact, b.toReal_exact⟩, Prod.ext ha hb⟩

/-- A value is read as a row of parameters. -/
def Value.IsRow (v : Value Exact) (ts : List (Scalar Exact)) : Prop :=
  v.layout? = some ([ts.length], ts.map .number)

theorem Value.IsRow.ofValue_eq {v : Value Exact} {ts : List (Scalar Exact)} (h : v.IsRow ts) :
    Arrays.ofValue v = .ok ⟨[ts.length], ts.map Scalar.exact⟩ := by
  have hcell (t : Scalar Exact) : (Value.number t).cell = .ok t.exact := expectReal_of_toReal t.toReal_exact
  have hcells : (ts.map Value.number).mapM Value.cell = .ok (ts.map Scalar.exact) :=
    mapM_eq_ok (List.forall₂_map_left_iff.2 (List.forall₂_map_right_iff.2
      (List.forall₂_same.2 fun t _ => hcell t)))
  show Block.ofValue v = _
  unfold Block.ofValue Value.expectLayout
  rw [show v.layout? = _ from h]
  simp only [ok_bind, hcells]
  rfl

/-! ### Samplers -/

/-- Where a curve is at parameter `t`. -/
def curvePoint (p₀ p₁ p₂ p₃ : Rat × Rat) (t : Rat) : Rat × Rat :=
  (curveAt p₀.1 p₁.1 p₂.1 p₃.1 t, curveAt p₀.2 p₁.2 p₂.2 p₃.2 t)

/-- The derivative of a curve at parameter `t`. -/
def slopePoint (p₀ p₁ p₂ p₃ : Rat × Rat) (t : Rat) : Rat × Rat :=
  (slopeAt p₀.1 p₁.1 p₂.1 p₃.1 t, slopeAt p₀.2 p₁.2 p₂.2 p₃.2 t)

/-- Points that are those a function gives at some parameters. -/
def Evaluates (f : Value Exact → Except (Fault Exact) (Value Exact)) (ts : List (Scalar Exact))
    (rs : List (Exact × Exact)) : Prop :=
  List.Forall₂ (fun t r => ∃ v, f (.number t) = .ok v ∧ v.At (planePoint r)) ts rs

theorem evaluates_map {f : Value Exact → Except (Fault Exact) (Value Exact)} {g : Exact → Exact × Exact}
    (h : ∀ t : Scalar Exact, ∃ v, f (.number t) = .ok v ∧ v.At (planePoint (g t.exact)))
    (ts : List (Scalar Exact)) : Evaluates f ts ((ts.map Scalar.exact).map g) := by
  rw [List.map_map]
  exact List.forall₂_map_right_iff.2 (List.forall₂_same.2 fun t _ => h t)

namespace Cubic

variable {c : Cubic Exact} {p₀ p₁ p₂ p₃ : Rat × Rat}

/-- A sum of four points with the weights at a parameter. -/
def blend (r₀ r₁ r₂ r₃ : Exact × Exact) (t : Exact) : Exact × Exact :=
  let u := constant 1 - t
  let sum (a₀ a₁ a₂ a₃ : Exact) : Exact :=
    cubed u * a₀ + constant 3 * u * u * t * a₁ + constant 3 * u * t * t * a₂ + cubed t * a₃
  (sum r₀.1 r₁.1 r₂.1 r₃.1, sum r₀.2 r₁.2 r₂.2 r₃.2)

/-- A point is computed for each parameter. -/
theorem Reads.sample_eq {r₀ r₁ r₂ r₃ : Exact × Exact} (h : c.Reads r₀ r₁ r₂ r₃) (ts : List Exact) :
    c.sample ts = .ok (.ofPairs (ts.map (blend r₀ r₁ r₂ r₃))) := by
  have hlength : (ts.flatMap fun t => (weights : List (Exact → Exact)).map (· t)).length = ts.length * 4 := by
    rw [List.length_flatMap]
    simp [weights]
  have hblock : Arrays.product? ⟨[ts.length, 4], ts.flatMap fun t => (weights : List (Exact → Exact)).map (· t)⟩
      ⟨[4, 2], [r₀.1, r₀.2, r₁.1, r₁.2, r₂.1, r₂.2, r₃.1, r₃.2]⟩ =
      some ⟨[ts.length, 2], (ts.map (blend r₀ r₁ r₂ r₃)).flatMap fun p => [p.1, p.2]⟩ := by
    refine (Block.product?_eq hlength rfl).trans ?_
    unfold Block.matrixProduct
    rw [pieces_flatMap 4 (fun _ => rfl), List.flatMap_map, List.flatMap_map]
    rfl
  have hpairs := ofBlock_pairs (ts.map (blend r₀ r₁ r₂ r₃))
  rw [List.length_map] at hpairs
  unfold sample sampleBlock
  rw [h.controls_eq, ok_bind, ← hpairs]
  dsimp only
  rw [table_list, show (weights : List (Exact → Exact)).length = 4 from rfl, hblock]
  rfl

theorem value_constant (n : Nat) : (constant n : Exact).value = n := Exact.value_ofInt n

/-- A third power has the sign of its base. -/
theorem value_cubed (x : Exact) : (cubed x).value = x.value * x.value * x.value := by
  obtain ⟨n, m, hm⟩ := x
  have hcube : 0 ≤ m * m * m := mul_nonneg (mul_nonneg hm hm) hm
  cases n with
  | false => exact Rat.abs_of_nonneg hcube
  | true =>
    show -(-m * -m * -m).abs = -m * -m * -m
    rw [neg_mul_neg, mul_neg, Rat.abs_neg, Rat.abs_of_nonneg hcube]

theorem planePoint_blend (r₀ r₁ r₂ r₃ : Exact × Exact) (t : Exact) : planePoint (blend r₀ r₁ r₂ r₃ t) =
    curvePoint (planePoint r₀) (planePoint r₁) (planePoint r₂) (planePoint r₃) t.value := by
  unfold planePoint blend curvePoint curveAt
  simp only [Exact.value_add, Exact.value_mul, Exact.value_sub, value_cubed, value_constant, Prod.mk.injEq]
  push_cast
  exact ⟨by ring, by ring⟩

theorem planePoint_blendSteps (r₀ r₁ r₂ r₃ : Exact × Exact) (t : Exact) : planePoint (blendSteps r₀ r₁ r₂ r₃ t) =
    slopePoint (planePoint r₀) (planePoint r₁) (planePoint r₂) (planePoint r₃) t.value := by
  unfold planePoint blendSteps slopePoint slopeAt
  simp only [Exact.value_add, Exact.value_mul, Exact.value_sub, value_constant, Prod.mk.injEq]
  push_cast
  exact ⟨by ring, by ring⟩

/-- The points of control points are what these are read as. -/
theorem At.exists_reads (h : c.At p₀ p₁ p₂ p₃) : ∃ r₀ r₁ r₂ r₃, c.Reads r₀ r₁ r₂ r₃ ∧
    planePoint r₀ = p₀ ∧ planePoint r₁ = p₁ ∧ planePoint r₂ = p₂ ∧ planePoint r₃ = p₃ := by
  obtain ⟨r₀, h₀, e₀⟩ := h.p0.exists_reads
  obtain ⟨r₁, h₁, e₁⟩ := h.p1.exists_reads
  obtain ⟨r₂, h₂, e₂⟩ := h.p2.exists_reads
  obtain ⟨r₃, h₃, e₃⟩ := h.p3.exists_reads
  exact ⟨r₀, r₁, r₂, r₃, ⟨h₀, h₁, h₂, h₃⟩, e₀, e₁, e₂, e₃⟩

/-- Samples of a curve are its points. -/
theorem At.exists_samples (h : c.At p₀ p₁ p₂ p₃) {v : Value Exact} {ts : List (Scalar Exact)} (hv : v.IsRow ts) :
    ∃ rs, c.sampleAt v = .ok (.ofPairs rs) ∧ Evaluates c.evaluate ts rs := by
  obtain ⟨r₀, r₁, r₂, r₃, hreads, rfl, rfl, rfl, rfl⟩ := h.exists_reads
  refine ⟨_, ?_, evaluates_map (g := blend r₀ r₁ r₂ r₃) (fun t => ?_) ts⟩
  · have hsample := hreads.sample_eq (ts.map Scalar.exact)
    unfold sample at hsample
    rw [List.length_map] at hsample
    unfold sampleAt
    rw [hreads.controls_eq, ok_bind, hv.ofValue_eq, ok_bind, hsample]
  · rw [planePoint_blend]
    exact h.evaluate t

/-- Samples of the derivative of a curve are its tangents. -/
theorem At.exists_sampleTangents (h : c.At p₀ p₁ p₂ p₃) (hm : c.IsMachine) {v : Value Exact}
    {ts : List (Scalar Exact)} (hv : v.IsRow ts) :
    ∃ rs, c.sampleTangentsAt v = .ok (.ofPairs rs) ∧ Evaluates c.tangent ts rs := by
  obtain ⟨r₀, r₁, r₂, r₃, hreads, rfl, rfl, rfl, rfl⟩ := h.exists_reads
  refine ⟨_, ?_, evaluates_map (g := blendSteps r₀ r₁ r₂ r₃) (fun t => ?_) ts⟩
  · have hsample := hreads.sampleTangents_eq hm (ts.map Scalar.exact)
    unfold sampleTangents at hsample
    rw [List.length_map] at hsample
    unfold sampleTangentsAt
    rw [hv.ofValue_eq, ok_bind, hsample]
  · rw [planePoint_blendSteps]
    exact h.tangent t

end Cubic

/-! ### Polylines -/

/-- Parameters at equal distances. -/
theorem value_evenSteps {m i : Nat} (hm : 0 < m) {t : Exact}
    (h : (evenSteps (Arithmetic.ofInt 1 : Exact) m)[i]? = some t) : t.value = i / m := by
  have hne : (m : Rat) ≠ 0 := Nat.cast_ne_zero.2 hm.ne'
  unfold evenSteps at h
  rw [List.getElem?_append, List.length_map, List.length_range] at h
  split at h
  · rename_i hi
    rw [List.getElem?_map, List.getElem?_range hi] at h
    obtain rfl := Option.some.inj h
    rw [Exact.value_mul, Exact.value_div, Exact.value_ofInt, Exact.value_ofInt, Exact.value_ofInt]
    push_cast
    ring
  · rename_i hi
    have hlast : i = m := by
      have hlt := (List.getElem?_eq_some_iff.1 h).1
      rw [List.length_singleton] at hlt
      omega
    subst hlast
    rw [Nat.sub_self] at h
    obtain rfl := Option.some.inj h
    rw [Exact.value_ofInt, div_self hne]
    rfl

/-- The ends of the parameters are those of the curve. -/
theorem evenSteps_ends {m : Nat} (hm : 0 < m) : ∃ first middle last,
    evenSteps (Arithmetic.ofInt 1 : Exact) m = first :: (middle ++ [last]) ∧
      first.value = 0 ∧ last.value = 1 := by
  obtain ⟨k, rfl⟩ : ∃ k, m = k + 1 := ⟨m - 1, by omega⟩
  refine ⟨_, _, Arithmetic.ofInt 1, by rw [evenSteps, List.range_succ_eq_map]; rfl, ?_, Exact.value_ofInt 1⟩
  rw [Exact.value_mul, Exact.value_ofInt]
  simp

theorem curvePoint_zero (p₀ p₁ p₂ p₃ : Rat × Rat) : curvePoint p₀ p₁ p₂ p₃ 0 = p₀ := by
  unfold curvePoint curveAt
  exact Prod.ext (by ring) (by ring)

theorem curvePoint_one (p₀ p₁ p₂ p₃ : Rat × Rat) : curvePoint p₀ p₁ p₂ p₃ 1 = p₃ := by
  unfold curvePoint curveAt
  exact Prod.ext (by ring) (by ring)

/-- A polyline has a vertex on the curve for each parameter; its ends are there too. -/
theorem exists_plainPath {u c v : Value Exact} {p₀ p₁ p₂ : Rat × Rat} (hu : u.At p₀) (hc : c.At p₁) (hv : v.At p₂)
    {n : Int} {m : Nat} (hm : (m : Int) = max 2 n) (hmax : (m : Int) + 1 ≤ maxSamples) :
    ∃ rs, (plainPath u v c (.int n)).result = .ok (.ofPairs rs) ∧
      List.Forall₂ (fun t r => planePoint r = curvePoint p₀ p₁ p₁ p₂ t.value)
        (evenSteps (Arithmetic.ofInt 1 : Exact) m) rs := by
  have hsome := hc.isSome
  obtain ⟨r₀, hr₀, rfl⟩ := hu.exists_reads
  obtain ⟨r₁, hr₁, rfl⟩ := hc.exists_reads
  obtain ⟨r₂, hr₂, rfl⟩ := hv.exists_reads
  obtain ⟨w, hw, hcount⟩ := exists_max_int (u := (.int 2 : Value Exact)) (v := .int n) rfl rfl
  have hsteps := evenlySpaced_eq (Arithmetic.ofInt 1 : Exact) (by omega : 1 ≤ m) hmax
  rw [hm] at hsteps
  have hreads : (⟨u, c, c, v⟩ : Cubic Exact).Reads r₀ r₁ r₁ r₂ := ⟨hr₀, hr₁, hr₁, hr₂⟩
  obtain ⟨first, middle, last, hends, hfirst, hlast⟩ := evenSteps_ends (by omega : 0 < m)
  refine ⟨r₀ :: (middle.map (Cubic.blend r₀ r₁ r₁ r₂) ++ [r₂]), ?_, ?_⟩
  · unfold plainPath
    rw [if_pos hsome]
    simp only [Logged.result_bind, result_lift, hw, ok_bind, sampleCount_eq hcount, hsteps, hreads.sample_eq]
    rw [hends, List.map_cons, List.map_append]
    refine (hr₀.pinned_eq hr₂ _ (by simp)).trans ?_
    rw [List.map_singleton, List.dropLast_concat]
  · rw [hends]
    refine .cons ?_ (List.rel_append ?_ (.cons ?_ .nil))
    · rw [hfirst, curvePoint_zero]
    · exact List.forall₂_map_right_iff.2 (List.forall₂_same.2 fun t _ => Cubic.planePoint_blend r₀ r₁ r₁ r₂ t)
    · rw [hlast, curvePoint_one]

/-- A polyline with too many vertices is refused. -/
theorem plainPath_tooMany (u v : Value Exact) {c : Value Exact} (hc : c.isSome = true) {n : Int}
    (h : maxSamples < max 2 n + 1) : (plainPath u v c (.int n)).result = .error (.refused .tooManySamples) := by
  obtain ⟨w, hw, hcount⟩ := exists_max_int (u := (.int 2 : Value Exact)) (v := .int n) rfl rfl
  unfold plainPath
  rw [if_pos hc]
  simp only [Logged.result_bind, result_lift, hw, ok_bind, sampleCount_eq hcount, evenlySpaced_tooMany _ h]
  rfl

/-! ### The middle of an edge -/

/-- The arrow styles whose marker sits in the middle. -/
def middleArrows : List String := ["mid-forward", "mid-backward", "mid-cross"]

namespace Edge

/-- The anchor in the middle of an edge is at a point, and if the arrow style of the edge has a marker there, so
is that marker.  On a valid edge it can be computed. -/
structure MarksMiddle (e : Edge Exact) (p : Rat × Rat) : Prop where
  anchor : ∃ v, (Diagram.anchorPoint (.edge e) (.text "mid")).result = .ok v ∧ v.At p
  marker : ∀ style, e.drawn = .ok style → ∀ name ∈ middleArrows, style.arrow = .text name →
    (∀ s ms, (e.markers s).result = .ok ms → ∃ m, ms = [m] ∧ m.position.At p) ∧
    (e.check = .ok () → ∀ s : Strokes Exact, s.HasSizes → ∃ ms, (e.markers s.given).result = .ok ms)

/-- Vertices lie on an edge at equal distances of their parameters, and where one of them is in the middle, there
are the anchor and the markers. -/
structure Traces (e : Edge Exact) (m : Nat) (rs : List (Exact × Exact)) : Prop where
  length_eq : rs.length = m + 1
  vertex : ∀ (i : Nat) r, rs[i]? = some r → ∀ t : Scalar Exact, t.exact.value = i / m →
    ∃ v, (e.pointAt (.number t)).result = .ok v ∧ v.At (planePoint r)
  middle : ∀ k : Nat, m = 2 * k → ∃ r, rs[k]? = some r ∧ e.MarksMiddle (planePoint r)

variable {e : Edge Exact}

theorem value_parameterMid : ∃ t : Scalar Exact, parameterMid = .number t ∧ t.exact.value = 1 / 2 :=
  ⟨_, rfl, by decide +kernel⟩

/-- What is in the middle of an edge is at the point of parameter one half. -/
theorem marksMiddle {v : Value Exact} {p : Rat × Rat} (h : (e.pointAt parameterMid).result = .ok v)
    (hp : v.At p) : e.MarksMiddle p := by
  refine ⟨⟨v, ?_, hp⟩, fun style hstyle name hname harrow => ⟨fun s ms hms => ?_, fun he s hs => ?_⟩⟩
  · unfold Diagram.anchorPoint
    rw [Logged.result_bind]
    exact bind_eq_ok.2 ⟨_, rfl, h⟩
  · have hmarkers := markers_placed hstyle hms
    have hparameters : markerParameters style.arrow = [parameterMid] := by
      rw [harrow]
      simp only [middleArrows, List.mem_cons, List.not_mem_nil, or_false] at hname
      rcases hname with rfl | rfl | rfl <;> rfl
    rw [hparameters] at hmarkers
    cases hmarkers with
    | @cons _ m _ _ hm hnil =>
      cases hnil
      obtain rfl : v = m.position := Except.ok.inj (h.symm.trans hm.1.position)
      exact ⟨m, rfl, hp⟩
  · exact (Edge.check_eq_ok.1 he).exists_markers hs

/-- The polyline of a curve lies on it. -/
theorem Runs.traces {p q c : Rat × Rat} (h : e.Runs p q (some c)) {m : Nat} (hm : 0 < m)
    {rs : List (Exact × Exact)} (hrs : List.Forall₂ (fun t r => planePoint r = curvePoint p c c q t.value)
      (evenSteps (Arithmetic.ofInt 1 : Exact) m) rs) : e.Traces m rs := by
  have hlength : rs.length = m + 1 := hrs.length_eq.symm.trans (length_evenSteps _ m)
  have hvertex : ∀ (i : Nat) r, rs[i]? = some r → ∀ t : Scalar Exact, t.exact.value = i / m →
      ∃ v, (e.pointAt (.number t)).result = .ok v ∧ v.At (planePoint r) := by
    intro i r hr t ht
    obtain ⟨hi, rfl⟩ := List.getElem?_eq_some_iff.1 hr
    have hi' : i < (evenSteps (Arithmetic.ofInt 1 : Exact) m).length := hrs.length_eq ▸ hi
    have hpoint := hrs.get hi' hi
    rw [List.get_eq_getElem, List.get_eq_getElem, value_evenSteps hm (List.getElem?_eq_getElem hi'),
      ← ht] at hpoint
    rw [hpoint]
    exact h.pointAt t
  refine ⟨hlength, hvertex, fun k hk => ?_⟩
  have hr : rs[k]? = some rs[k] := List.getElem?_eq_getElem (by omega)
  obtain ⟨t, hparameter, ht⟩ := value_parameterMid
  have hhalf : t.exact.value = k / m := by
    have hne : (k : Rat) ≠ 0 := Nat.cast_ne_zero.2 (by omega)
    rw [ht, hk]
    push_cast
    field_simp
  obtain ⟨v, hv, hp⟩ := hvertex k _ hr t hhalf
  rw [← hparameter] at hv
  exact ⟨_, hr, marksMiddle hv hp⟩

end Edge

/-! ### Every curve -/

/-- The polyline of a curve has one vertex more than steps, of which there are at least two, and each of them is
the point of the edge at its parameter.  In the middle of an even number of steps there are the anchor and the
markers.  A sampler gives the points of a curve at any parameters, and its tangents too, unless a whole number
takes more than 64 bits. -/
theorem samples_on_curve :
    (∀ {e : Edge Exact} {p q c : Rat × Rat}, e.Runs p q (some c) → ∀ {n : Int} {m : Nat}, (m : Int) = max 2 n →
      ((m : Int) + 1 ≤ maxSamples → ∃ rs,
        (plainPath e.start e.finish e.control (.int n)).result = .ok (.ofPairs rs) ∧ e.Traces m rs) ∧
      (maxSamples < (m : Int) + 1 →
        (plainPath e.start e.finish e.control (.int n)).result = .error (.refused .tooManySamples))) ∧
    ∀ {c : Cubic Exact} {p₀ p₁ p₂ p₃ : Rat × Rat}, c.At p₀ p₁ p₂ p₃ →
      ∀ {v : Value Exact} {ts : List (Scalar Exact)}, v.IsRow ts →
        (∃ rs, c.sampleAt v = .ok (.ofPairs rs) ∧ Evaluates c.evaluate ts rs) ∧
        (c.IsMachine → ∃ rs, c.sampleTangentsAt v = .ok (.ofPairs rs) ∧ Evaluates c.tangent ts rs) := by
  refine ⟨fun {e p q c} h n m hm => ?_,
    fun h v ts hv => ⟨h.exists_samples hv, fun hc => h.exists_sampleTangents hc hv⟩⟩
  obtain ⟨hcurve, hc⟩ : e.isCurve = true ∧ e.control.At c := by
    obtain ⟨-, hnone⟩ | ⟨c', hcurve, hsome, hc⟩ := h.bend
    · cases hnone
    · cases hsome
      exact ⟨hcurve, hc⟩
  refine ⟨fun hmax => ?_, fun hmax => ?_⟩
  · obtain ⟨rs, hrs, hon⟩ := exists_plainPath h.start hc h.finish hm hmax
    exact ⟨rs, hrs, h.traces (by omega) hon⟩
  · exact plainPath_tooMany _ _ hc.isSome (hm ▸ hmax)

/-- A curve with a cross in the middle. -/
def crossedCurve : Edge Exact where
  id := .int 1
  kind := .text "curve"
  start := .pair (.int 0) (.int 0)
  finish := .list [.int 6, .int 0]
  control := .pair (.int 3) (.int 4)
  style := Style.value ⟨.text "solid", black, .int 2, .text "mid-cross"⟩

theorem samples_on_crossedCurve : crossedCurve.Runs (0, 0) (6, 0) (some (3, 4)) ∧
    (∃ rs, (plainPath crossedCurve.start crossedCurve.finish crossedCurve.control (.int 4)).result =
      .ok (.ofPairs rs) ∧ crossedCurve.Traces 4 rs) ∧
    (∃ rs, crossedCurve.cubic.sampleAt (.list [parameterMid]) = .ok (.ofPairs rs) ∧
      Evaluates crossedCurve.cubic.evaluate [.real (Arithmetic.ofDecimal 5 (-1))] rs) ∧
    ∃ rs, crossedCurve.cubic.sampleTangentsAt (.list [parameterMid]) = .ok (.ofPairs rs) ∧
      Evaluates crossedCurve.cubic.tangent [.real (Arithmetic.ofDecimal 5 (-1))] rs := by
  have hpair (m n : Int) : (Value.pair (.int m) (.int n) : Value Exact).At (m, n) :=
    ⟨_, _, .inl rfl, Scalar.exact_int m, Scalar.exact_int n⟩
  have hstart : crossedCurve.start.At (0, 0) := hpair 0 0
  have hfinish : crossedCurve.finish.At (6, 0) := ⟨_, _, .inr rfl, Scalar.exact_int 6, Scalar.exact_int 0⟩
  have hcontrol : crossedCurve.control.At (3, 4) := hpair 3 4
  have hruns : crossedCurve.Runs (0, 0) (6, 0) (some (3, 4)) :=
    ⟨hstart, hfinish, .inr ⟨_, by decide +kernel, rfl, hcontrol⟩⟩
  have hcubic : crossedCurve.cubic.At (0, 0) (3, 4) (3, 4) (6, 0) := ⟨hstart, hcontrol, hcontrol, hfinish⟩
  have hmachine : crossedCurve.cubic.IsMachine := by
    have hcontrol : crossedCurve.control.IsMachine := IsPair.isMachine (.inl rfl) rfl rfl
    exact ⟨IsPair.isMachine (.inl rfl) rfl rfl, hcontrol, hcontrol,
      IsPair.isMachine (.inr rfl) rfl rfl⟩
  have hrow : (Value.list [parameterMid] : Value Exact).IsRow [.real (Arithmetic.ofDecimal 5 (-1))] := rfl
  obtain ⟨hsamples, htangents⟩ := samples_on_curve.2 hcubic hrow
  exact ⟨hruns, (samples_on_curve.1 hruns (by decide)).1 (by decide), hsamples, htangents hmachine⟩

/-- A curve with control points so far away that their whole coordinates take more than 64 bits. -/
def farCubic : Cubic Exact :=
  ⟨.pair (.int 0) (.int 0), .pair (.int 100000000000000000000) (.int 0),
    .pair (.int 100000000000000000000) (.int 0), .pair (.int 0) (.int 0)⟩

/-- This curve has a tangent in the middle, but the sampler fails, and so does a polyline with very many
vertices. -/
theorem farCubic_refused :
    (∃ v, farCubic.tangent parameterMid = .ok v ∧ v.At (0, 0)) ∧
    (∃ f, farCubic.sampleTangentsAt (.list [parameterMid]) = .error f) ∧
    ∃ f, (plainPath farCubic.p0 farCubic.p3 farCubic.p1 (.int 100000000000000000000)).result = .error f := by
  have hpair (m n : Int) : (Value.pair (.int m) (.int n) : Value Exact).At (m, n) :=
    ⟨_, _, .inl rfl, Scalar.exact_int m, Scalar.exact_int n⟩
  have hcubic : farCubic.At (0, 0) (100000000000000000000, 0) (100000000000000000000, 0) (0, 0) :=
    ⟨hpair 0 0, hpair _ 0, hpair _ 0, hpair 0 0⟩
  obtain ⟨t, hparameter, ht⟩ := Edge.value_parameterMid
  obtain ⟨v, hv, hp⟩ := hcubic.tangent t
  rw [← hparameter] at hv
  rw [ht] at hp
  refine ⟨⟨v, hv, ?_⟩, exists_of_not_isOk (by decide +kernel), _, plainPath_tooMany _ _ rfl (by decide)⟩
  unfold slopeAt at hp
  norm_num at hp
  exact hp

end FeynmanTikz
