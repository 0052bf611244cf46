/-
Every valid element of numbers that fit can be written.

What is computed from the numbers on the way into the text are opposites, and quotients by the scale of
the text and by two.  Nothing else there can fail.

* `HasUnits R`: neither the scale of the text nor two is zero as a number of type `R`,
* `Scalar.FitsEitherWay`: a number and its opposite fit into `R`; so does every number of type `R`,
* `Measure.exists_printed`: such a number is printed, whatever it measures,
* `Diagram.IsDrawable`, `exists_states`: so an element made of such numbers has a statement,
* `validate_ofText`, `exists_document_ofText`: a diagram that has been read from a text is valid and is
  written,
* `validate_cleared`, `exists_document_cleared`: so is every diagram without elements.
-/
import FeynmanTikz.Proofs.Diagram.Atomicity
import FeynmanTikz.Proofs.Diagram.Validation
import FeynmanTikz.Proofs.Tikz.Description

namespace FeynmanTikz

/-- Neither the scale of the text nor two is zero as a number of type `R`. -/
class HasUnits (R : Type) [Arithmetic R] : Prop where
  scale : (Arithmetic.reading (Measure.scale : R)).isZero = false
  two : (Arithmetic.reading (Arithmetic.ofInt 2 : R)).isZero = false

instance : HasUnits Float := ⟨by decide +kernel, by decide +kernel⟩

variable {R : Type} [Arithmetic R]

/-! ### Numbers -/

/-- Whether a number fits into `R`, and its opposite as well. -/
def Scalar.FitsEitherWay (x : Scalar R) : Prop := x.Fits ∧ x.neg.Fits

theorem Scalar.fitsEitherWay_real (x : R) : (Scalar.real x).FitsEitherWay := ⟨⟨x, rfl⟩, -x, rfl⟩

/-- The distance from zero is the number or its opposite. -/
theorem Scalar.FitsEitherWay.abs {x : Scalar R} (h : x.FitsEitherWay) : x.abs.Fits := by
  cases x with
  | real x => exact ⟨Arithmetic.abs x, rfl⟩
  | int n =>
    rcases Int.natAbs_eq n with hn | hn
    · have habs : (Scalar.int n : Scalar R).abs = .int n := congrArg Scalar.int hn.symm
      rw [habs]
      exact h.1
    · have habs : (Scalar.int n : Scalar R).abs = .int (-n) := congrArg Scalar.int (by omega)
      rw [habs]
      exact h.2

/-- A number that fits into `R` can be divided by one of type `R` that is not zero. -/
theorem Scalar.Fits.div {x : Scalar R} (hx : x.Fits) {y : R}
    (hy : (Arithmetic.reading y).isZero = false) :
    ∃ z : R, (Computed.of (.number x) / Computed.of (.real y) : Computed R).result = .ok (.real z) := by
  obtain ⟨r, hr⟩ := hx
  have hdiv : Scalar.div x (.real y) = x.toReal >>= fun a =>
      if (Arithmetic.reading y).isZero then .error .divisionByZero else .ok (.real (a / y)) := by
    cases x <;> rfl
  refine ⟨r / y, ?_⟩
  show Value.div (.number x) (.number (.real y)) = _
  rw [Value.div_number, hdiv, hr, ok_bind, hy]
  rfl

/-- Every number of type `R` is printed with the decimals of the format. -/
theorem exists_formatNumber (x : R) : ∃ t, formatNumber standardCodec (.real x) = .ok t :=
  ⟨_, rfl⟩

/-- The larger one of two numbers of type `R`. -/
theorem exists_max (x y : R) : ∃ z : R, Value.max (.real x) (.real y) = .ok (.real z) := by
  show ∃ z : R, Except.ok (if (Scalar.real x).lt (.real y) then _ else _) = Except.ok (Value.real z)
  split
  · exact ⟨y, rfl⟩
  · exact ⟨x, rfl⟩

/-- Every number that fits either way is printed as a measure. -/
theorem Measure.exists_printed [HasUnits R] (m : Measure) {x : Scalar R} (h : x.FitsEitherWay) :
    ∃ t, m.printed (.number x) = .ok t := by
  have key {v : Value R} (hv : ∃ y : R, m.inText v = .ok (.real y)) : ∃ t, m.printed v = .ok t := by
    obtain ⟨y, hy⟩ := hv
    obtain ⟨t, ht⟩ := exists_formatNumber y
    exact ⟨t, bind_eq_ok.2 ⟨_, hy, ht⟩⟩
  refine key ?_
  cases m with
  | abscissa => exact h.1.div HasUnits.scale
  | ordinate => exact h.2.div HasUnits.scale
  | ellipseRadius => exact h.abs.div HasUnits.scale
  | pointRadius =>
    obtain ⟨z, hz⟩ := h.1.div (HasUnits.scale (R := R))
    obtain ⟨y, hy⟩ := exists_max (Arithmetic.ofDecimal 4 (-2)) z
    exact ⟨y, bind_eq_ok.2 ⟨_, hz, hy⟩⟩
  | lineWidth =>
    obtain ⟨z, hz⟩ := h.1.div (HasUnits.two (R := R))
    obtain ⟨y, hy⟩ := exists_max (Arithmetic.ofDecimal 4 (-1)) z
    exact ⟨y, bind_eq_ok.2 ⟨_, hz, hy⟩⟩

/-! ### Elements -/

/-- A number that fits into `R` either way. -/
def IsFitting (v : Value R) : Prop := ∃ x, v = .number x ∧ x.FitsEitherWay

/-- A pair of numbers that fit into `R` either way. -/
def IsFittingPair (v : Value R) : Prop := ∃ x y, IsPair v x y ∧ x.FitsEitherWay ∧ y.FitsEitherWay

theorem IsRealNumber.isFitting {v : Value R} (h : IsRealNumber v) : IsFitting v := by
  obtain ⟨x, rfl⟩ := h
  exact ⟨_, rfl, Scalar.fitsEitherWay_real x⟩

theorem IsRealPair.isFittingPair {v : Value R} (h : IsRealPair v) : IsFittingPair v := by
  obtain ⟨x, y, rfl⟩ := h
  exact ⟨_, _, isPair_pair _ _, Scalar.fitsEitherWay_real x, Scalar.fitsEitherWay_real y⟩

/-- Whether an element is made of numbers that fit, and is valid where that matters for its statement.
A label is judged by where it stands. -/
def Diagram.IsDrawable (d : Diagram R) : Element R → Prop
  | .point p => IsFittingPair p.position ∧ IsFitting p.radius
  | .edge e => e.IsValid ∧ IsFittingPair e.start ∧ IsFittingPair e.finish ∧
      (e.control = .none ∨ IsFittingPair e.control) ∧
        ∃ style, e.drawn = .ok style ∧ IsFitting style.strokeWidth
  | .ellipse e => IsColor e.color ∧ IsFittingPair e.center ∧ IsFitting e.rx ∧ IsFitting e.ry ∧
      IsFitting e.strokeWidth
  | .label l => ∃ p, (d.resolve l).result = .ok p ∧ IsFittingPair p

section

variable [HasUnits R]

theorem IsFittingPair.exists_format {p : Value R} (h : IsFittingPair p) :
    ∃ t, formatCoordinate standardCodec p = .ok t := by
  obtain ⟨x, y, hp, hx, hy⟩ := h
  obtain ⟨X, hX⟩ := Measure.abscissa.exists_printed hx
  obtain ⟨Y, hY⟩ := Measure.ordinate.exists_printed hy
  exact ⟨_, formatCoordinate_eq hp hX hY⟩

theorem IsFitting.exists_printed {v : Value R} (h : IsFitting v) (m : Measure) :
    ∃ t, m.printed v = .ok t := by
  obtain ⟨x, rfl, hx⟩ := h
  exact m.exists_printed hx

theorem IsFitting.exists_lineWidth {w : Value R} (h : IsFitting w) :
    ∃ t, formatLineWidth standardCodec w = .ok t := by
  obtain ⟨t, ht⟩ := h.exists_printed .lineWidth
  exact ⟨_, by rw [formatLineWidth_eq, ht]; rfl⟩

omit [HasUnits R] in
theorem IsColor.exists_tikzColor {c : Value R} (h : IsColor c) : ∃ t, tikzColor c = .ok t := by
  obtain ⟨r, g, b, hc, -⟩ := h
  exact ⟨_, tikzColor_eq hc⟩

theorem exists_styleOptions {style : Style R} (hv : style.IsValid) (hw : IsFitting style.strokeWidth) :
    ∃ t, styleOptions standardCodec style = .ok t := by
  obtain ⟨color, hcolor⟩ := hv.color.exists_tikzColor
  obtain ⟨width, hwidth⟩ := hw.exists_lineWidth
  obtain ⟨stroke, hk, hstroke⟩ := hv.stroke
  unfold styleOptions
  rw [hcolor, ok_bind, hwidth, ok_bind, hstroke, strokeOptions_eq hk, ok_bind, Codec.settings_given]
  exact ⟨_, rfl⟩

theorem exists_course {e : Edge R} (hv : e.IsValid) (hs : IsFittingPair e.start)
    (hf : IsFittingPair e.finish) (hc : e.control = .none ∨ IsFittingPair e.control) :
    ∃ path, e.Course path := by
  obtain ⟨start, hstart⟩ := hs.exists_format
  obtain ⟨finish, hfinish⟩ := hf.exists_format
  rcases hv.bend with ⟨hkind, -⟩ | ⟨hkind, hcontrol⟩
  · exact ⟨_, .chord hkind hstart hfinish⟩
  · obtain ⟨control, hcontrol⟩ := (hc.resolve_left hcontrol.ne_none).exists_format
    exact ⟨_, .bow hkind hstart hcontrol hfinish⟩

/-- Every drawable element has a statement. -/
theorem exists_states {d : Diagram R} {e : Element R} (h : d.IsDrawable e) : ∃ t, d.States e t := by
  cases e with
  | point p =>
    obtain ⟨position, hposition⟩ := h.1.exists_format
    obtain ⟨radius, hradius⟩ := h.2.exists_printed .pointRadius
    exact ⟨_, .point hposition hradius⟩
  | edge e =>
    obtain ⟨hv, hs, hf, hc, style, hd, hw⟩ := h
    obtain ⟨style', hd', hstyle⟩ := hv.style
    obtain rfl : style = style' := Except.ok.inj (hd.symm.trans hd')
    obtain ⟨path, hpath⟩ := exists_course hv hs hf hc
    obtain ⟨options, hoptions⟩ := exists_styleOptions hstyle hw
    exact ⟨_, .edge hpath hd hoptions⟩
  | ellipse e =>
    obtain ⟨hcolor, hcenter, hx, hy, hw⟩ := h
    obtain ⟨center, hcenter⟩ := hcenter.exists_format
    obtain ⟨rx, hrx⟩ := hx.exists_printed .ellipseRadius
    obtain ⟨ry, hry⟩ := hy.exists_printed .ellipseRadius
    obtain ⟨color, hcolor⟩ := hcolor.exists_tikzColor
    obtain ⟨width, hwidth⟩ := hw.exists_lineWidth
    exact ⟨_, .ellipse hcenter hrx hry hcolor hwidth⟩
  | label l =>
    obtain ⟨p, hp, hpair⟩ := h
    obtain ⟨position, hposition⟩ := hpair.exists_format
    exact ⟨_, .label hp hposition⟩

end

/-- A readable element of numbers of type `R` is drawable. -/
theorem IsReadable.isDrawable {e : Element R} (hv : IsReadable e) (h : e.IsReal) (d : Diagram R) :
    d.IsDrawable e := by
  cases e with
  | point p => exact ⟨h.1.isFittingPair, h.2.isFitting⟩
  | edge e =>
    obtain ⟨hs, hf, hc, style, hd, hw⟩ := h
    exact ⟨Edge.check_eq_ok.1 hv, hs.isFittingPair, hf.isFittingPair, hc.imp_right fun hp =>
      hp.isFittingPair, style, hd, hw.isFitting⟩
  | ellipse e =>
    obtain ⟨hc, hx, hy, hw⟩ := h
    exact ⟨(Ellipse.check_eq_ok.1 hv).color, hc.isFittingPair, hx.isFitting, hy.isFitting, hw.isFitting⟩
  | label l =>
    obtain ⟨hp, hb⟩ := h
    have hunbound : l.bound? = .ok none := by
      unfold Label.bound?
      rw [hb]
    exact ⟨l.position, d.resolve_of_unbound hunbound, hp.isFittingPair⟩

/-! ### Diagrams -/

/-- A diagram is written if each of its elements is. -/
theorem exists_document_of_formatted {d : Diagram R}
    (h : ∀ s, ∀ e ∈ (d.shelf s).values, ∃ t, d.formatted s e = .ok t) :
    ∃ t, (d.document standardCodec).result = .ok t := by
  choose ts hts using fun s => exists_mapM (h s)
  obtain ⟨t, ht, -⟩ := Diagram.document_eq hts
  exact ⟨t, ht⟩

/-- A diagram that has been read from a text is written. -/
theorem exists_document_ofText [HasUnits R] {text : List Char} {d : Diagram R}
    (h : (Diagram.ofText standardCodec text).result = .ok d) :
    ∃ t, (d.document standardCodec).result = .ok t := by
  refine exists_document_of_formatted fun s e he => ?_
  obtain ⟨hs, hv⟩ := readable_ofText h s e he
  obtain ⟨t, ht⟩ := exists_states (hv.isDrawable ((ends_ofText text).ok h s e he) d)
  exact ⟨t, ht.formatted hs⟩

/-- A diagram that has been read from a text is valid. -/
theorem validate_ofText {codec : Given R (Codec R)} {text : List Char} {d : Diagram R}
    (h : (Diagram.ofText codec text).result = .ok d) : d.validate = .ok () := by
  have hs : d.Sound := Diagram.IsStart.sound (.inr ⟨codec, text, h⟩)
  refine hs.validate_eq_ok.2 fun l hl => ?_
  exact (readable_ofText h .labels _ hl).2.2.1

/-- A diagram without elements is valid, whatever its next id. -/
theorem validate_cleared (d : Diagram R) : d.cleared.validate = .ok () := rfl

theorem exists_document_cleared (d : Diagram R) :
    ∃ t, (d.cleared.document standardCodec).result = .ok t := by
  refine exists_document_of_formatted fun s e he => ?_
  cases s <;> cases he

end FeynmanTikz
