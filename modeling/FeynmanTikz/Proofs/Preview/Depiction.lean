/-
What a preview shows.

Every element of a diagram that can be shown is drawn once: an ellipse, an edge with its markers, a point, or
the formula of a label.  The axes end at the margin around everything that has been drawn.

* `LawfulCanvas R`: what is asked of the axes,
* `Marker.Shows`, `Diagram.Depicts`: the calls for a marker and for an element, and the coordinates they
  occupy,
* `Diagram.CanShow`: what an element must be to be drawn, `Diagram.exists_depicted`: then it is drawn,
* `Diagram.exists_preview`: the calls for a whole diagram,
* `Diagram.preview_of_validate`: every valid diagram has a preview.
-/
import FeynmanTikz.Proofs.Number.Angles
import FeynmanTikz.Proofs.Preview.Frames
import FeynmanTikz.Proofs.Stroke.Markers
import FeynmanTikz.Proofs.Tikz.Output

namespace FeynmanTikz

section

variable {R : Type} [Arithmetic R]

/-! ### Colours and widths -/

/-- The digits of a colour, in lower case. -/
def colorDigits : List Char := "0123456789abcdef".toList

/-- A colour in six digits. -/
def IsHexColor (color : String) : Prop :=
  ∃ digits : List Char, color.toList = '#' :: digits ∧ digits.length = 6 ∧ ∀ c ∈ digits, c ∈ colorDigits

/-- What is asked of the axes: six digits are a colour and a number is a width, both of them as they are. -/
class LawfulCanvas (R : Type) [Arithmetic R] [Canvas R] : Prop where
  color : ∀ {color : String}, IsHexColor color → Canvas.patchColor (R := R) color = .ok color
  width : ∀ {a : Scalar R} {x : R}, a.toReal = .ok x → Canvas.patchWidth (.number a) = .ok (.real x)

omit [Arithmetic R] in
theorem digitColor_eq {color : String} (h : IsHexColor color) : digitColor (R := R) color = .ok color := by
  obtain ⟨digits, hcolor, hlength, hdigits⟩ := h
  have hminus : digits.contains '-' = false := by
    rw [List.contains_eq_mem, decide_eq_false_iff_not]
    exact fun hmem => absurd (hdigits _ hmem) (by decide)
  unfold digitColor
  rw [hcolor, List.drop_one, List.tail_cons]
  dsimp only
  rw [if_pos ⟨.inl hlength, by rw [hminus]; rfl⟩, List.take_of_length_le hlength.le, ← hcolor,
    String.ofList_toList]

/-- The standard axes are such. -/
theorem LawfulCanvas.of_standard : letI := Canvas.standard R; LawfulCanvas R :=
  letI := Canvas.standard R
  { color := digitColor_eq
    width := fun h => bind_eq_ok.2 ⟨_, expectReal_of_toReal h, rfl⟩ }

/-- A component of a colour is written as two digits. -/
theorem hexText_component {n : Nat} (h : n ≤ 255) :
    (hexText n).toList.length = 2 ∧ ∀ c ∈ (hexText n).toList, c ∈ colorDigits := by
  -- there are few enough components to write all of them
  have hall : ((List.range 256).all fun n =>
      (hexText n).toList.length == 2 && (hexText n).toList.all colorDigits.contains) = true := by decide +kernel
  have hn := List.all_eq_true.1 hall n (List.mem_range.2 (by omega))
  rw [Bool.and_eq_true, beq_iff_eq, List.all_eq_true] at hn
  exact ⟨hn.1, fun c hc => List.contains_iff_mem.1 (hn.2 c hc)⟩

/-- The colour of a stroke has six digits. -/
theorem exists_hexColor {c : Value R} (h : IsColor c) : ∃ color, hexColor c = .ok color ∧ IsHexColor color := by
  obtain ⟨r, g, b, htriple, hr, hg, hb⟩ := h
  have hcolor : hexColor c = .ok ("#" ++ hexText r ++ hexText g ++ hexText b) := by
    rcases htriple with rfl | rfl <;> rfl
  obtain ⟨hrl, hrd⟩ := hexText_component hr
  obtain ⟨hgl, hgd⟩ := hexText_component hg
  obtain ⟨hbl, hbd⟩ := hexText_component hb
  refine ⟨_, hcolor, (hexText r).toList ++ (hexText g).toList ++ (hexText b).toList, ?_, ?_, ?_⟩
  · simp [String.toList_append]
  · simp [hrl, hgl, hbl]
  · simp only [List.forall_mem_append]
    exact ⟨⟨hrd, hgd⟩, hbd⟩

/-! ### Pictures -/

/-- The calls that show a marker: a triangle that is filled and closed, or two segments. -/
inductive Marker.Shows (color : String) (width : Value R) : Marker R → List (DrawCall R) → Prop
  | arrowhead (tip left right : Value R) :
      Shows color width (.arrowhead tip left right) [.polygon color color [tip, left, right, tip]]
  | cross (center x₀ y₀ x₁ y₁ x₂ y₂ x₃ y₃ : Value R) :
      Shows color width
        (.cross center (.tuple [x₀, y₀], .tuple [x₁, y₁]) (.tuple [x₂, y₂], .tuple [x₃, y₃]))
        [.plot [x₀, x₁] [y₀, y₁] color width .none, .plot [x₂, x₃] [y₂, y₃] color width .none]

variable [Arrays R]

/-- An element of a diagram as it is drawn: the calls, and the coordinates they occupy. -/
inductive Diagram.Depicts (d : Diagram R) (strokes : Strokes R) : Element R → Drawing R → Prop
  | ellipse {e : Ellipse R} {color : String} {width height left right top bottom : Value R} {outline : R}
      (hcolor : hexColor e.color = .ok color)
      (hwidth : Computed.of (.int 2) * Computed.of e.rx = Computed.of width)
      (hheight : Computed.of (.int 2) * Computed.of e.ry = Computed.of height)
      (houtline : e.strokeWidth.expectReal = .ok outline)
      (hleft : e.center.x - Computed.of e.rx = Computed.of left)
      (hright : e.center.x + Computed.of e.rx = Computed.of right)
      (htop : e.center.y - Computed.of e.ry = Computed.of top)
      (hbottom : e.center.y + Computed.of e.ry = Computed.of bottom) :
      Depicts d strokes (.ellipse e)
        ⟨[.ellipse ellipseFace color e.center width height (.real outline)], [left, right], [top, bottom]⟩
  | edge {e : Edge R} {style : Style R} {color : String} {n : Int} {ps : List (R × R)} {ms : List (Marker R)}
      {calls : List (List (DrawCall R))} (hstyle : e.drawn = .ok style)
      (hcolor : hexColor style.color = .ok color)
      (hpath : (e.polyline strokes.given).result = .ok (.ofPairs ps))
      (hspans : (Positions.ofPairs ps).Spans n e.start e.finish)
      (hmarkers : (e.markers strokes.given).result = .ok ms)
      (hplaced : List.Forall₂ (fun t m => e.Holds t m ∧ (m.isCross = true ↔ style.arrow = .text "mid-cross"))
        (markerParameters style.arrow) ms)
      (hshown : List.Forall₂ (Marker.Shows color style.strokeWidth) ms calls) :
      Depicts d strokes (.edge e)
        ⟨.plot (ps.map fun p => .real p.1) (ps.map fun p => .real p.2) color style.strokeWidth
            (dashPattern style.strokeKind) :: calls.flatten,
          ps.map fun p => .real p.1, ps.map fun p => .real p.2⟩
  | point {p : Point R} {x y : Scalar R} (hposition : IsPair p.position x y) :
      Depicts d strokes (.point p) ⟨[.circle pointFace p.position p.radius], [.number x], [.number y]⟩
  | label {l : Label R} {p : Value R} {x y : Scalar R} (hresolved : (d.resolve l).result = .ok p)
      (hposition : IsPair p x y) :
      Depicts d strokes (.label l)
        ⟨[.text (.number x) (.number y) (labelMarkup l.text)], [.number x], [.number y]⟩

omit [Arrays R] in
theorem Marker.exists_calls [Canvas R] {m : Marker R} (h : ∀ v ∈ m.ends, ∃ x y, v = .tuple [x, y])
    {color : String} (hcolor : Canvas.patchColor (R := R) color = .ok color) (width : Value R) :
    ∃ calls, m.calls color width = .ok calls ∧ m.Shows color width calls := by
  cases m with
  | arrowhead tip left right => exact ⟨_, bind_eq_ok.2 ⟨color, hcolor, rfl⟩, .arrowhead tip left right⟩
  | cross center first second =>
    obtain ⟨a, b⟩ := first
    obtain ⟨c, d⟩ := second
    obtain ⟨x₀, y₀, rfl⟩ := h a (by simp [ends])
    obtain ⟨x₁, y₁, rfl⟩ := h b (by simp [ends])
    obtain ⟨x₂, y₂, rfl⟩ := h c (by simp [ends])
    obtain ⟨x₃, y₃, rfl⟩ := h d (by simp [ends])
    exact ⟨_, rfl, .cross center x₀ y₀ x₁ y₁ x₂ y₂ x₃ y₃⟩

omit [Arrays R] in
theorem column_ofPairs {ps : List (R × R)} {i : Nat} {f : R × R → R}
    (hi : (Positions.ofPairs ps).expectCoordinate i = .ok ()) (hf : ∀ p : R × R, [p.1, p.2][i]? = some (f p)) :
    column (.ofPairs ps) i = .ok (ps.map fun p => .real (f p)) := by
  have hrow (p : R × R) :
      ((Value.list ([p.1, p.2].map Value.real)).items?).bind (·[i]?) = some (.real (f p)) := by
    show ([p.1, p.2].map Value.real)[i]? = _
    rw [List.getElem?_map, hf]
    rfl
  unfold column
  rw [hi, ok_bind]
  show Except.ok (((ps.map fun p => [p.1, p.2]).map fun row => Value.list (row.map Value.real)).filterMap
    fun row => (row.items?).bind (·[i]?)) = _
  rw [List.map_map, List.filterMap_map, ← List.filterMap_eq_map (f := fun p => Value.real (f p))]
  exact congrArg _ (List.filterMap_congr fun p _ => hrow p)

/-! ### Elements -/

namespace Diagram

/-- What is drawn for an element by the collection it is in. -/
def drawing [Canvas R] (d : Diagram R) (strokes : Given R (Strokes R)) : Shelf → Element R → Logged R (Drawing R)
  | .points, e => Logged.ofExcept (do (← e.asPoint).drawing)
  | .edges, e => do (← e.asEdge).drawing strokes
  | .ellipses, e => Logged.ofExcept (do (← e.asEllipse).drawing)
  | .labels, e => do (← e.asLabel).drawing d

/-- Whether an element of a diagram can be drawn: it is valid, and a label stands at a pair of numbers. -/
def CanShow (d : Diagram R) : Element R → Prop
  | .point p => p.check = .ok ()
  | .edge e => e.check = .ok ()
  | .ellipse e => e.check = .ok ()
  | .label l => ∃ p q, (d.resolve l).result = .ok p ∧ p.Reads q

theorem exists_point {d : Diagram R} {strokes : Strokes R} {p : Point R} (h : p.check = .ok ()) :
    ∃ g, p.drawing = .ok g ∧ d.Depicts strokes (.point p) g ∧ g.IsFit := by
  obtain ⟨⟨x, y, hposition, hx, hy⟩, -⟩ := Point.check_eq_ok.1 h
  refine ⟨_, ?_, .point hposition, ⟨by simp, ?_⟩, by simp, ?_⟩
  · unfold Point.drawing
    rw [x_of_isPair hposition, y_of_isPair hposition]
    rfl
  · simpa using ⟨x, rfl, hx.fits⟩
  · simpa using ⟨y, rfl, hy.fits⟩

theorem exists_label {d : Diagram R} {strokes : Strokes R} {l : Label R}
    (h : ∃ p q, (d.resolve l).result = .ok p ∧ p.Reads q) :
    ∃ g, (l.drawing d).result = .ok g ∧ d.Depicts strokes (.label l) g ∧ g.IsFit := by
  obtain ⟨p, q, hp, x, y, hposition, hx, hy⟩ := h
  refine ⟨_, ?_, .label hp hposition, ⟨by simp, ?_⟩, by simp, ?_⟩
  · unfold Label.drawing
    rw [Logged.result_bind, hp, ok_bind, Logged.result_bind, result_lift]
    rcases hposition with rfl | rfl <;> rfl
  · simpa using ⟨x, rfl, q.1, hx⟩
  · simpa using ⟨y, rfl, q.2, hy⟩

section

variable {ρ : Rat → Rat} [Rounds R ρ]

include ρ

omit [Arrays R] in
/-- What lies a radius away from a coordinate, on either side. -/
theorem exists_extent {c r : Scalar R} (hc : IsCoordinate c) (hr : IsRadius r) : ∃ low high : Value R,
    (Computed.of (.number c) - Computed.of (.number r) : Computed R) = Computed.of low ∧
      (Computed.of (.number c) + Computed.of (.number r) : Computed R) = Computed.of high ∧
        low.IsFit ∧ high.IsFit := by
  obtain ⟨x, hx⟩ := Measure.exists_within (m := .abscissa) hc
  obtain ⟨y, hy⟩ := Measure.exists_within (m := .ellipseRadius) hr
  obtain ⟨low, z, hlow, hz⟩ := hx.exists_combine hy (by norm_num) (fun m n => m.natAbs_sub_le n) (· - ·)
  obtain ⟨high, w, hhigh, hw⟩ := hx.exists_combine hy (by norm_num) (fun m n => m.natAbs_add_le n) (· + ·)
  refine ⟨.number low, .number high, ?_, ?_, ⟨low, rfl, z, hz⟩, high, rfl, w, hw⟩
  · show Value.sub (.number c) (.number r) = _
    rw [Value.sub_number, show c.sub r = _ from hlow]
    rfl
  · show Value.add (.number c) (.number r) = _
    rw [Value.add_number, show c.add r = _ from hhigh]
    rfl

omit [Arrays R] in
/-- Twice a number. -/
theorem exists_double {x : Scalar R} (h : x.Fits) :
    ∃ w, (Computed.of (.int 2) * Computed.of (.number x) : Computed R) = Computed.of w := by
  obtain ⟨y, hy⟩ := h
  have htwo : (Scalar.int 2 : Scalar R).toReal = .ok _ :=
    (Scalar.within_int (k := 2) (by decide) (by norm_num)).toReal_eq
  have hmul : ∃ c, Scalar.mul (.int 2) x = .ok c := by
    rcases Scalar.combine_eq_or htwo hy (· * ·) (· * ·) with hreal | ⟨_, _, -, -, hint⟩
    · exact ⟨_, hreal⟩
    · exact ⟨_, hint⟩
  obtain ⟨c, hc⟩ := hmul
  refine ⟨.number c, ?_⟩
  show Value.mul (.number (.int 2)) (.number x) = _
  rw [Value.mul_number, hc]
  rfl

theorem exists_ellipse [Canvas R] [LawfulCanvas R] {d : Diagram R} {strokes : Strokes R} {e : Ellipse R}
    (h : e.check = .ok ()) :
    ∃ g, e.drawing = .ok g ∧ d.Depicts strokes (.ellipse e) g ∧ g.IsFit := by
  obtain ⟨⟨x, y, hcenter, hx, hy⟩, ⟨rx, hrx, hrxv⟩, ⟨ry, hry, hryv⟩, hcolor, w, hw, hwidth⟩ :=
    Ellipse.check_eq_ok.1 h
  obtain ⟨left, right, hleft, hright, hleftFit, hrightFit⟩ := exists_extent hx hrxv
  obtain ⟨top, bottom, htop, hbottom, htopFit, hbottomFit⟩ := exists_extent hy hryv
  obtain ⟨width, htwice⟩ := exists_double (Scalar.fits_of_isFiniteNumber hrxv.finite)
  obtain ⟨height, htwice'⟩ := exists_double (Scalar.fits_of_isFiniteNumber hryv.finite)
  obtain ⟨color, hcolor, hdigits⟩ := exists_hexColor hcolor
  have hpatch := LawfulCanvas.color (R := R) hdigits
  obtain ⟨outline, houtline⟩ := Scalar.fits_of_isFiniteNumber hwidth.finite
  have hpatchWidth : Canvas.patchWidth e.strokeWidth = .ok (.real outline) := by
    rw [hw]
    exact LawfulCanvas.width houtline
  have hcx : e.center.x = Computed.of (.number x) := x_of_isPair hcenter
  have hcy : e.center.y = Computed.of (.number y) := y_of_isPair hcenter
  rw [← hrx] at hleft hright htwice
  rw [← hry] at htop hbottom htwice'
  rw [← hcx] at hleft hright
  rw [← hcy] at htop hbottom
  refine ⟨_, ?_, .ellipse hcolor htwice htwice' (hw ▸ expectReal_of_toReal houtline) hleft hright htop hbottom,
    ⟨by simp, ?_⟩, by simp, ?_⟩
  · exact bind_eq_ok.2 ⟨_, htwice, bind_eq_ok.2 ⟨_, htwice', bind_eq_ok.2 ⟨_, hcolor, bind_eq_ok.2 ⟨_, hpatch,
      bind_eq_ok.2 ⟨_, hpatchWidth, bind_eq_ok.2 ⟨_, hleft, bind_eq_ok.2 ⟨_, hright, bind_eq_ok.2 ⟨_, htop,
        bind_eq_ok.2 ⟨_, hbottom, rfl⟩⟩⟩⟩⟩⟩⟩⟩⟩
  · simpa using ⟨hleftFit, hrightFit⟩
  · simpa using ⟨htopFit, hbottomFit⟩

end

end Diagram

/-! ### Edges -/

omit [Arrays R] in
/-- The sizes of markers that are used unless others are given. -/
theorem hasSizes_standard : (Strokes.standard : Strokes R).HasSizes :=
  ⟨⟨_, rfl⟩, ⟨_, rfl⟩, ⟨_, rfl⟩, ⟨_, rfl⟩⟩

namespace Diagram

variable [LawfulArrays R] [Canvas R] [LawfulCanvas R] {ρ : Rat → Rat} [Angles R ρ]

include ρ

theorem exists_edge {d : Diagram R} {e : Edge R} (h : e.check = .ok ()) :
    ∃ g, (e.drawing (Strokes.standard : Strokes R).given).result = .ok g ∧
      d.Depicts Strokes.standard (.edge e) g ∧ g.IsFit := by
  have hvalid := Edge.check_eq_ok.1 h
  obtain ⟨style, hstyle, hstyleValid⟩ := hvalid.style
  obtain ⟨color, hcolor, hdigits⟩ := exists_hexColor hstyleValid.color
  obtain ⟨n, _, -, hpath, hspans⟩ := hvalid.exists_polyline
  obtain ⟨ps, rfl, hne⟩ : ∃ ps, _ = Positions.ofPairs ps ∧ ps ≠ [] := by
    obtain ⟨first, middle, last, hps, -⟩ := hspans
    exact ⟨_, hps, List.cons_ne_nil _ _⟩
  obtain ⟨ms, hms⟩ := hvalid.exists_markers hasSizes_standard
  have hplaced := Edge.markers_placed hstyle hms
  have hcalls : ∀ m ∈ ms, ∃ calls, m.calls color style.strokeWidth = .ok calls ∧
      m.Shows color style.strokeWidth calls := by
    intro m hm
    obtain ⟨t, -, hholds, -⟩ := exists_of_forall₂ hplaced hm
    exact Marker.exists_calls hholds.ends (LawfulCanvas.color hdigits) style.strokeWidth
  obtain ⟨calls, hshown⟩ := exists_forall₂ hcalls
  have hfit (f : R × R → R) : (ps.map fun p => Value.real (f p)) ≠ [] ∧
      ∀ v ∈ ps.map fun p => Value.real (f p), v.IsFit := by
    refine ⟨fun hnil => hne (List.map_eq_nil_iff.1 hnil), fun v hv => ?_⟩
    obtain ⟨p, -, rfl⟩ := List.mem_map.1 hv
    exact ⟨_, rfl, f p, rfl⟩
  refine ⟨_, ?_, .edge hstyle hcolor hpath hspans hms hplaced (hshown.imp fun _ _ h => h.2),
    hfit Prod.fst, hfit Prod.snd⟩
  unfold Edge.drawing
  simp only [Logged.result_bind, result_lift, result_mapM, Logged.result_ofExcept]
  exact bind_eq_ok.2 ⟨style, hstyle, bind_eq_ok.2 ⟨color, hcolor, bind_eq_ok.2 ⟨_, hpath,
    bind_eq_ok.2 ⟨_, column_ofPairs rfl fun _ => rfl, bind_eq_ok.2 ⟨_, column_ofPairs rfl fun _ => rfl,
      bind_eq_ok.2 ⟨_, rfl, bind_eq_ok.2 ⟨ms, hms, bind_eq_ok.2 ⟨calls,
        mapM_eq_ok (hshown.imp fun _ _ h => h.1), rfl⟩⟩⟩⟩⟩⟩⟩⟩

/-- Every element that can be drawn is drawn. -/
theorem exists_depicted {d : Diagram R} {s : Shelf} {e : Element R} (hs : s.admits e = true)
    (h : d.CanShow e) : ∃ g, (d.drawing (Strokes.standard : Strokes R).given s e).result = .ok g ∧
      d.Depicts Strokes.standard e g ∧ g.IsFit := by
  cases e with
  | point p =>
    cases s <;> cases hs
    exact exists_point h
  | edge e =>
    cases s <;> cases hs
    exact exists_edge h
  | ellipse e =>
    cases s <;> cases hs
    exact exists_ellipse h
  | label l =>
    cases s <;> cases hs
    exact exists_label h

end Diagram

/-! ### Whole diagrams -/

/-- Drawings in the order in which they are made. -/
def inOrder (gs : Shelf → List (Drawing R)) : List (Drawing R) :=
  gs .ellipses ++ gs .edges ++ gs .points ++ gs .labels

namespace Diagram

/-- A diagram as it is shown: a drawing of each element, and the limits of the axes unless there is nothing
to be seen.  The second axis is reversed. -/
structure Shows (d : Diagram R) (strokes : Strokes R) (gs : Shelf → List (Drawing R))
    (limits : List (DrawCall R)) : Prop where
  depicted : ∀ s, List.Forall₂ (fun e g => s.admits e = true ∧ d.Depicts strokes e g) (d.shelf s).values (gs s)
  limits : (d.isEmpty = true ∧ limits = []) ∨ (d.isEmpty = false ∧ ∃ left right top bottom,
    limits = [.xlim left right, .ylim bottom top] ∧ Frames ((inOrder gs).flatMap Drawing.xs) left right ∧
      Frames ((inOrder gs).flatMap Drawing.ys) top bottom)

/-- The preview of a diagram, once every element has been drawn. -/
theorem preview_eq [Canvas R] {d : Diagram R} {strokes : Given R (Strokes R)} {gs : Shelf → List (Drawing R)}
    (h : ∀ s, (d.shelf s).values.mapM (fun e => (d.drawing strokes s e).result) = .ok (gs s))
    {limits : List (DrawCall R)} (hlimits : (Drawing.concat (inOrder gs)).limits = .ok limits) :
    (d.preview strokes).result =
      .ok ((inOrder gs).flatMap Drawing.calls ++ limits ++ [.equalAspect, .axisOff]) := by
  have step {α β : Type} {m : Logged R α} {f : α → Logged R β} {a : α} {b : β} (hm : m.result = .ok a)
      (hf : (f a).result = .ok b) : (m >>= f).result = .ok b := by
    rw [Logged.result_bind, hm]
    exact hf
  refine step (h .ellipses) (step ((result_mapM _ _).trans (h .edges)) (step (h .points)
    (step ((result_mapM _ _).trans (h .labels)) (step hlimits ?_))))
  show Except.ok ((Drawing.concat (inOrder gs)).calls ++ limits ++ _) = _
  rw [Drawing.concat_eq]

omit [Arithmetic R] [Arrays R] in
/-- A diagram without elements has no drawings. -/
theorem inOrder_eq_nil {d : Diagram R} {P : Shelf → Element R → Drawing R → Prop}
    {gs : Shelf → List (Drawing R)} (h : ∀ s, List.Forall₂ (P s) (d.shelf s).values (gs s)) :
    inOrder gs = [] ↔ d.isEmpty = true := by
  have hshelf (s : Shelf) : gs s = [] ↔ (d.shelf s).isEmpty = true := by
    unfold Collection.isEmpty
    rw [List.isEmpty_iff, ← List.length_eq_zero_iff, ← (h s).length_eq, List.length_eq_zero_iff]
    exact List.map_eq_nil_iff
  have hall : d.isEmpty = true ↔ ((d.shelf .points).isEmpty = true ∧ (d.shelf .edges).isEmpty = true) ∧
      (d.shelf .ellipses).isEmpty = true ∧ (d.shelf .labels).isEmpty = true := by
    unfold isEmpty
    simp only [Bool.and_eq_true, and_assoc]
    rfl
  unfold inOrder
  rw [hall, ← hshelf, ← hshelf, ← hshelf, ← hshelf]
  simp only [List.append_eq_nil_iff]
  tauto

variable [LawfulArrays R] [Canvas R] [LawfulCanvas R] {ρ : Rat → Rat} [Angles R ρ]

include ρ

/-- A diagram whose elements can be drawn has a preview. -/
theorem exists_preview {d : Diagram R}
    (h : ∀ s, ∀ e ∈ (d.shelf s).values, s.admits e = true ∧ d.CanShow e) :
    ∃ gs limits, d.Shows Strokes.standard gs limits ∧
      (d.preview (Strokes.standard : Strokes R).given).result =
        .ok ((inOrder gs).flatMap Drawing.calls ++ limits ++ [.equalAspect, .axisOff]) := by
  have hdrawn (s : Shelf) : ∃ gs, List.Forall₂ (fun e g => s.admits e = true ∧
      (d.drawing (Strokes.standard : Strokes R).given s e).result = .ok g ∧
        d.Depicts Strokes.standard e g ∧ g.IsFit) (d.shelf s).values gs := by
    refine exists_forall₂ fun e he => ?_
    obtain ⟨hs, he⟩ := h s e he
    obtain ⟨g, hg⟩ := exists_depicted hs he
    exact ⟨g, hs, hg⟩
  choose gs hgs using hdrawn
  have hdepicted (s : Shelf) := (hgs s).imp fun _ _ hg => And.intro hg.1 hg.2.2.1
  have hmapM (s : Shelf) := mapM_eq_ok ((hgs s).imp fun _ _ hg => hg.2.1)
  have hfit : ∀ g ∈ inOrder gs, g.IsFit := by
    have hshelf (s : Shelf) : ∀ g ∈ gs s, g.IsFit := fun g hg =>
      (exists_of_forall₂ (hgs s) hg).elim fun _ he => he.2.2.2.2
    unfold inOrder
    simp only [List.forall_mem_append]
    exact ⟨⟨⟨hshelf _, hshelf _⟩, hshelf _⟩, hshelf _⟩
  obtain ⟨limits, hlimits, hseen⟩ := exists_limits hfit
  have hempty := inOrder_eq_nil hdepicted
  rw [ne_eq, hempty, Bool.not_eq_true] at hseen
  exact ⟨gs, limits, ⟨hdepicted, hseen⟩, preview_eq hmapM hlimits⟩

/-- A valid diagram has a preview: first an ellipse for each ellipse, then the polyline of each edge with its
markers behind it, then a circle for each point and the formula of each label where it stands, and at the end
the limits of the axes and what is the same for all diagrams. -/
theorem preview_of_validate [HasOpposites R] {d : Diagram R} (h : d.validate = .ok ()) :
    ∃ gs limits, d.Shows Strokes.standard gs limits ∧
      (d.preview (Strokes.standard : Strokes R).given).result =
        .ok ((inOrder gs).flatMap Drawing.calls ++ limits ++ [.equalAspect, .axisOff]) := by
  refine exists_preview fun s e he => ?_
  have hcheck := check_of_validate h s e he
  have hs := admits_of_check hcheck
  refine ⟨hs, ?_⟩
  cases e with
  | point p =>
    cases s <;> cases hs
    exact hcheck
  | edge e =>
    cases s <;> cases hs
    exact hcheck
  | ellipse e =>
    cases s <;> cases hs
    exact hcheck
  | label l =>
    obtain ⟨p, hp, x, y, hpair, ⟨⟨a, ha⟩, -⟩, ⟨b, hb⟩, -⟩ := isDrawable_of_validate h he
    exact ⟨p, (a, b), hp, x, y, hpair, ha, hb⟩

end Diagram

end

/-! ### Angles along the axes -/

section

instance : Arrays Axial := .standard Axial

instance : LawfulArrays Axial := .of_standard

instance : Canvas Axial := .standard Axial

instance : LawfulCanvas Axial := .of_standard

namespace Diagram

/-- The diagram put together by hand, with an ellipse.  Its markers point along the first axis. -/
def byHandFilled : Diagram Axial :=
  { byHand with
    ellipses := ⟨[(.int 3, .ellipse ⟨.int 3, .list [.int 20, .int 10], .int 8, .int 5, rgb 0 128 255, .int 1⟩)]⟩ }

theorem preview_of_byHandFilled : byHandFilled.validate = .ok () ∧
    ∃ gs limits, byHandFilled.Shows Strokes.standard gs limits ∧
      (byHandFilled.preview (Strokes.standard : Strokes Axial).given).result =
        .ok ((inOrder gs).flatMap Drawing.calls ++ limits ++ [.equalAspect, .axisOff]) := by
  obtain ⟨⟨⟩, hv⟩ := exists_of_isOk (x := byHandFilled.validate) (by decide +kernel)
  exact ⟨hv, preview_of_validate hv⟩

end Diagram

end

end FeynmanTikz
