/-
Every valid diagram can be listed.

A listing looks at the coordinates, the lengths and the colours of an element, and at the offset of a
binding.  Each of these has been checked, and then it is a number that fits into `R`, a pair of them or
three whole numbers.

* `exists_shortNumber`, `exists_vecText`, `exists_colorText`: the parts of a line,
* `exists_formatElement`: the line of an element that passes the check of its collection,
* `Diagram.exists_listing`: so a valid diagram has a listing, however it has been put together.
-/
import FeynmanTikz.Listing
import FeynmanTikz.Proofs.Diagram.Validation

namespace FeynmanTikz

variable {R : Type} [Arithmetic R]

/-! ### Parts of a line -/

theorem exists_shortNumber {x : Scalar R} (h : x.Fits) : ∃ t, shortNumber (.number x) = .ok t := by
  obtain ⟨r, hr⟩ := h
  have hreal : (Value.number x).expectReal = .ok r := by
    show liftArithmetic x.toReal = _
    rw [hr]
    rfl
  unfold shortNumber
  dsimp only
  rw [hreal]
  exact ⟨_, rfl⟩

theorem exists_vecText {v : Value R} (h : IsPosition v) : ∃ t, vecText v = .ok t := by
  obtain ⟨x, y, hv, hx, hy⟩ := h
  obtain ⟨X, hX⟩ := exists_shortNumber hx.fits
  obtain ⟨Y, hY⟩ := exists_shortNumber hy.fits
  have hitem₀ : v.item 0 = .ok (.number x) := x_of_isPair hv
  have hitem₁ : v.item 1 = .ok (.number y) := y_of_isPair hv
  unfold vecText
  rw [hitem₀, ok_bind, hX, ok_bind, hitem₁, ok_bind, hY]
  exact ⟨_, rfl⟩

theorem exists_lengthText {P : Scalar R → Prop} (hP : ∀ {x}, P x → IsLength x) {v : Value R}
    (h : ∃ x, v = .number x ∧ P x) : ∃ t, shortNumber v = .ok t := by
  obtain ⟨x, rfl, hx⟩ := h
  exact exists_shortNumber (Scalar.fits_of_isFiniteNumber (hP hx).finite)

theorem exists_colorText {v : Value R} (h : IsColor v) : ∃ t, colorText v = .ok t := by
  obtain ⟨r, g, b, rfl | rfl, -⟩ := h
  · exact ⟨_, rfl⟩
  · exact ⟨_, rfl⟩

theorem exists_styleText {style : Style R} (h : style.IsValid) : ∃ t, styleText style = .ok t := by
  obtain ⟨color, hcolor⟩ := exists_colorText h.color
  obtain ⟨width, hwidth⟩ := exists_lengthText IsPositive.toIsLength h.width
  unfold styleText
  rw [hcolor, ok_bind, hwidth]
  exact ⟨_, rfl⟩

theorem exists_courseText {e : Edge R} (h : e.IsValid) : ∃ t, courseText e = .ok t := by
  obtain ⟨start, hstart⟩ := exists_vecText h.start
  obtain ⟨finish, hfinish⟩ := exists_vecText h.finish
  unfold courseText
  rw [hstart, ok_bind, hfinish]
  -- The control point is asked for just where the check has found one.
  rcases h.bend with ⟨hkind, -⟩ | ⟨hkind, hcontrol⟩
  · rw [hkind]
    exact ⟨_, rfl⟩
  · obtain ⟨control, hcontrol⟩ := exists_vecText hcontrol
    rw [hkind, hcontrol]
    exact ⟨_, rfl⟩

/-! ### Lines -/

theorem exists_pointText {p : Point R} (h : p.check = .ok ()) : ∃ t, pointText p = .ok t := by
  obtain ⟨hposition, hradius⟩ := Point.check_eq_ok.1 h
  obtain ⟨position, hposition⟩ := exists_vecText hposition
  obtain ⟨radius, hradius⟩ := exists_lengthText IsPositive.toIsLength hradius
  unfold pointText
  rw [hposition, ok_bind, hradius]
  exact ⟨_, rfl⟩

theorem exists_edgeText {e : Edge R} (h : e.IsValid) : ∃ t, edgeText e = .ok t := by
  obtain ⟨course, hcourse⟩ := exists_courseText h
  obtain ⟨style, hdrawn, hstyle⟩ := h.style
  obtain ⟨text, htext⟩ := exists_styleText hstyle
  unfold edgeText
  rw [hcourse, ok_bind, hdrawn, ok_bind, htext]
  exact ⟨_, rfl⟩

theorem exists_ellipseText {e : Ellipse R} (h : e.IsValid) : ∃ t, ellipseText e = .ok t := by
  obtain ⟨center, hcenter⟩ := exists_vecText h.center
  obtain ⟨rx, hrx⟩ := exists_lengthText IsRadius.toIsLength h.rx
  obtain ⟨ry, hry⟩ := exists_lengthText IsRadius.toIsLength h.ry
  obtain ⟨color, hcolor⟩ := exists_colorText h.color
  obtain ⟨width, hwidth⟩ := exists_lengthText IsPositive.toIsLength h.width
  unfold ellipseText
  rw [hcenter, ok_bind, hrx, ok_bind, hry, ok_bind, hcolor, ok_bind, hwidth]
  exact ⟨_, rfl⟩

theorem exists_labelText {l : Label R} {edges : List (Value R)} (h : l.IsValid edges) :
    ∃ t, labelText l = .ok t := by
  obtain ⟨position, hposition⟩ := exists_vecText h.position
  obtain ⟨b, hb, hvalid⟩ := h.binding
  unfold labelText
  rw [hposition, ok_bind, hb, ok_bind]
  cases b with
  | none => exact ⟨_, rfl⟩
  | some b =>
    obtain ⟨offset, hoffset⟩ := exists_vecText (hvalid b rfl).offset
    dsimp only
    unfold bindingText
    rw [hoffset]
    exact ⟨_, rfl⟩

/-- An element that passes the check of its collection has a line. -/
theorem exists_formatElement {d : Diagram R} {s : Shelf} {e : Element R} (h : d.check s e = .ok ()) :
    ∃ t, formatElement e = .ok t := by
  have hs := Diagram.admits_of_check h
  cases e with
  | point p =>
    cases s <;> cases hs
    exact exists_pointText h
  | edge e =>
    cases s <;> cases hs
    exact exists_edgeText (Edge.check_eq_ok.1 h)
  | ellipse e =>
    cases s <;> cases hs
    exact exists_ellipseText (Ellipse.check_eq_ok.1 h)
  | label l =>
    cases s <;> cases hs
    exact exists_labelText (Label.check_eq_ok.1 h)

/-- A valid diagram has a listing. -/
theorem Diagram.exists_listing {d : Diagram R} (hv : d.validate = .ok ()) :
    ∃ t, d.listing = .ok t := by
  have hall : ∀ e ∈ d.elements, ∃ t, formatElement e = .ok t := by
    intro e he
    obtain ⟨s, hs⟩ := mem_elements.1 he
    exact exists_formatElement (d.check_of_validate hv s e hs)
  obtain ⟨ts, hts⟩ := exists_mapM hall
  unfold Diagram.listing
  rw [hts]
  exact ⟨_, rfl⟩

end FeynmanTikz
