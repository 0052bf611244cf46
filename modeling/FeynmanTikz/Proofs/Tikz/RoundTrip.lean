/-
Writing and reading a diagram.

* `exists_rows`: a diagram that can be written is written as rows that can be read back,
* `Survives`: what becomes of an element that is written and read back,
* `survives_document`: in a valid diagram every element survives, in order,
* `document_of_normalized`: a text that has been read and written is written in the same way when it
  is read once more.
-/
import FeynmanTikz.Proofs.Tikz.Legibility
import FeynmanTikz.Proofs.Tikz.Rebuilding
import FeynmanTikz.Proofs.Tikz.RoundedMeasure

namespace FeynmanTikz

variable {R : Type} [Arithmetic R]

/-! ### Rows of a diagram -/

theorem Row.Of.shelf_eq {d : Diagram R} {e : Element R} {row : Row} {s : Shelf} (h : Row.Of d e row)
    (hs : s.admits e = true) : row.shelf = s := by
  cases h <;> cases s <;> first | rfl | cases hs

/-- A diagram that can be written is written as rows that can be read back. -/
theorem exists_rows (hr : ReadsBack R) {d : Diagram R} (h : d.AllLegible) :
    ∃ rows, AreSound R rows ∧ Transcribes d rows := by
  have key (s : Shelf) : ∀ es : List (Element R), (∀ e ∈ es, s.admits e = true ∧ d.IsLegible e) →
      ∃ rows : List Row, (∀ row ∈ rows, row.shelf = s ∧ row.Sound R) ∧
        List.Forall₂ (fun e row => Row.Of d e row ∧ row.shelf = s) es rows := by
    intro es
    induction es with
    | nil => exact fun _ => ⟨[], by simp, .nil⟩
    | cons e es ih =>
      intro hes
      obtain ⟨hs, he⟩ := hes e List.mem_cons_self
      obtain ⟨row, hof, hsound⟩ := exists_row hr he
      obtain ⟨rows, hrows, hofs⟩ := ih fun x hx => hes x (List.mem_cons_of_mem _ hx)
      have hshelf := hof.shelf_eq hs
      exact ⟨row :: rows, List.forall_mem_cons.2 ⟨⟨hshelf, hsound⟩, hrows⟩, .cons ⟨hof, hshelf⟩ hofs⟩
  choose rows hsound hof using fun s => key s (d.shelf s).values (h s)
  exact ⟨rows, hsound, hof⟩

theorem again_rows (hp : PrintsAgain R) {d d' : Diagram R} {s : Shelf} : ∀ {es : List (Element R)}
    {rows : List Row} {es' : List (Element R)},
      List.Forall₂ (fun e row => Row.Of d e row ∧ row.shelf = s) es rows →
      (∀ row ∈ rows, row.Sound R) → List.Forall₂ Row.Yields rows es' →
      List.Forall₂ (fun e row => Row.Of d' e row ∧ row.shelf = s) es' rows
  | _, _, _, .nil, _, .nil => .nil
  | _, _, _, .cons hrow hrest, hs, .cons hy hys => by
    obtain ⟨hfirst, hs⟩ := List.forall_mem_cons.1 hs
    obtain ⟨id, rfl⟩ := hy
    exact .cons ⟨hrow.1.again hp hfirst d' id, hrow.2⟩ (again_rows hp hrest hs hys)

/-- The elements that are read from the rows of a diagram are written as these rows. -/
theorem Transcribes.again (hp : PrintsAgain R) {d d' : Diagram R} {rows : Shelf → List Row}
    (h : Transcribes d rows) (hs : AreSound R rows)
    (hy : ∀ s, List.Forall₂ Row.Yields (rows s) (d'.shelf s).values) : Transcribes d' rows :=
  fun s => again_rows hp (h s) (fun row hrow => (hs s row hrow).2) (hy s)

/-- What has been read from a text is written as a text that is read again, and what is read then is
written as the same text. -/
theorem document_of_normalized (hr : ReadsBack R) (hp : PrintsAgain R) {text : List Char}
    {d : Diagram R} (h : (Diagram.ofText standardCodec text).result = .ok d) :
    ∃ normal, (d.document standardCodec).result = .ok normal ∧
      ∃ d' : Diagram R, (Diagram.ofText standardCodec normal.toList).result = .ok d' ∧
        (d'.document standardCodec).result = .ok normal := by
  obtain ⟨rows, hsound, hrows⟩ := exists_rows hr (allLegible_ofText h)
  obtain ⟨d', hd', hyields⟩ := ofText_documentText hsound
  exact ⟨documentText R rows, hrows.document, d', hd', (hrows.again hp hsound hyields).document⟩

/-- A text with other spaces, other names and another order than the writer has. -/
def handwritten : List Char :=
  "\\node at (0,1) \x7b$x$\x7d ;\n\\draw[ blue , -> ](0,0)--( 1.5 , -2 ) ;% edge-arrow: mid-cross".toList

theorem document_of_handwritten : ReadsBack Exact ∧ PrintsAgain Exact ∧
    ∃ d : Diagram Exact, (Diagram.ofText standardCodec handwritten).result = .ok d ∧
      ∃ normal, (d.document standardCodec).result = .ok normal ∧
        ∃ d' : Diagram Exact, (Diagram.ofText standardCodec normal.toList).result = .ok d' ∧
          (d'.document standardCodec).result = .ok normal := by
  obtain ⟨d, hd⟩ := exists_of_isOk
    (x := (Diagram.ofText (R := Exact) standardCodec handwritten).result) (by decide +kernel)
  exact ⟨readsBack_exact, printsAgain_exact, d, hd,
    document_of_normalized readsBack_exact printsAgain_exact hd⟩

/-! ### What becomes of an element -/

/-- A number is read back from the numeral that is printed for another one. -/
def Measure.Carries (m : Measure) (v w : Value R) : Prop :=
  ∃ x y, v = .number x ∧ w = .number y ∧ m.Recovers x y

/-- The coordinates of a position are read back from the numerals that are printed for those of
another one. -/
def CarriesPosition (p q : Value R) : Prop :=
  ∃ x y x' y', IsPair p x y ∧ q = .tuple [.number x', .number y'] ∧
    Measure.abscissa.Recovers x x' ∧ Measure.ordinate.Recovers y y'

/-- A colour has the components of another one. -/
def CarriesColor (c c' : Value R) : Prop := ∃ r g b : Nat, IsTriple c r g b ∧ c' = rgb r g b

/-- What becomes of an element of a diagram that is written and read back.  Names stay as they are,
numbers are those of the numerals, and a label stands, unbound, where the original stood. -/
inductive Survives (d : Diagram R) : Element R → Element R → Prop where
  | point {p q : Point R} (position : CarriesPosition p.position q.position)
      (radius : Measure.pointRadius.Carries p.radius q.radius) : Survives d (.point p) (.point q)
  | edge {e f : Edge R} {style style' : Style R} (kind : f.kind = e.kind)
      (start : CarriesPosition e.start f.start) (finish : CarriesPosition e.finish f.finish)
      (control : (e.control = .none ∧ f.control = .none) ∨ CarriesPosition e.control f.control)
      (drawn : e.drawn = .ok style) (drawn' : f.drawn = .ok style')
      (stroke : style'.strokeKind = style.strokeKind) (arrow : style'.arrow = style.arrow)
      (color : CarriesColor style.color style'.color)
      (width : Measure.lineWidth.Carries style.strokeWidth style'.strokeWidth) :
      Survives d (.edge e) (.edge f)
  | ellipse {e f : Ellipse R} (center : CarriesPosition e.center f.center)
      (rx : Measure.ellipseRadius.Carries e.rx f.rx) (ry : Measure.ellipseRadius.Carries e.ry f.ry)
      (color : CarriesColor e.color f.color)
      (width : Measure.lineWidth.Carries e.strokeWidth f.strokeWidth) :
      Survives d (.ellipse e) (.ellipse f)
  | label {l k : Label R} {p : Value R} {t : String} (resolved : (d.resolve l).result = .ok p)
      (position : CarriesPosition p k.position) (text : l.text = .text t)
      (stripped : k.text = .text (String.ofList (stripMath t.toList))) (unbound : k.binding = .none) :
      Survives d (.label l) (.label k)

theorem Measure.Writes.recovers {m : Measure} {x : Scalar R} {h : Hundredths} (hw : m.Writes x h)
    (hs : m.Sound R h) : m.Recovers x (.real (m.value h)) :=
  ⟨h, hw.printed, recovered_eq_ok.2 ⟨hs.1, rfl⟩⟩

theorem Measure.Writes.carries {m : Measure} {v : Value R} {x : Scalar R} {h : Hundredths}
    (hv : v = .number x) (hw : m.Writes x h) (hs : m.Sound R h) :
    m.Carries v (.real (m.value h)) :=
  ⟨x, _, hv, rfl, hw.recovers hs⟩

theorem Spot.Of.carries {s : Spot} {p : Value R} (h : s.Of p) (hs : s.Sound R) :
    CarriesPosition p s.value := by
  obtain ⟨x, y, hp, hx, hy⟩ := h
  exact ⟨x, y, _, _, hp, rfl, hx.recovers hs.x, hy.recovers hs.y⟩

theorem Ink.Of.carries {i : Ink} {color width : Value R} (h : i.Of color width) (hs : i.Sound R) :
    CarriesColor color i.color ∧ Measure.lineWidth.Carries width i.strokeWidth := by
  obtain ⟨hcolor, x, hx, hw⟩ := h
  exact ⟨⟨_, _, _, hcolor, rfl⟩, hw.carries hx hs.width⟩

/-- An element survives in the row that has been written for it. -/
theorem Row.Of.survives {d : Diagram R} {e e' : Element R} {row : Row} (h : Row.Of d e row)
    (hs : row.Sound R) (hy : row.Yields e') : Survives d e e' := by
  obtain ⟨id, rfl⟩ := hy
  cases h with
  | point position radius printed => exact .point (position.carries hs.1) (printed.carries radius hs.2)
  | edge hstart hfinish bend drawn hink hstroke hk harrow =>
    obtain ⟨hsstart, hsfinish, hscontrol, hsink, -⟩ := hs
    obtain ⟨hcolor, hwidth⟩ := hink.carries hsink
    -- The kind that is read back is that of the path that has been written.
    cases bend with
    | straight kind control =>
      exact .edge kind.symm (hstart.carries hsstart) (hfinish.carries hsfinish) (.inl ⟨control, rfl⟩)
        drawn rfl hstroke.symm harrow.symm hcolor hwidth
    | curve kind control =>
      exact .edge kind.symm (hstart.carries hsstart) (hfinish.carries hsfinish)
        (.inr (control.carries (hscontrol _ rfl))) drawn rfl hstroke.symm harrow.symm hcolor hwidth
  | ellipse hcenter hx hy hrx hry hink =>
    obtain ⟨hscenter, hsrx, hsry, hsink⟩ := hs
    obtain ⟨hcolor, hwidth⟩ := hink.carries hsink
    exact .ellipse (hcenter.carries hscenter) (hrx.carries hx hsrx) (hry.carries hy hsry) hcolor hwidth
  | label resolved position text => exact .label resolved (position.carries hs.1) text rfl rfl

theorem survives_rows {d : Diagram R} {s : Shelf} : ∀ {es : List (Element R)} {rows : List Row}
    {es' : List (Element R)}, List.Forall₂ (fun e row => Row.Of d e row ∧ row.shelf = s) es rows →
      (∀ row ∈ rows, row.Sound R) → List.Forall₂ Row.Yields rows es' →
      List.Forall₂ (Survives d) es es'
  | _, _, _, .nil, _, .nil => .nil
  | _, _, _, .cons hrow hrest, hs, .cons hy hys => by
    obtain ⟨hfirst, hs⟩ := List.forall_mem_cons.1 hs
    exact .cons (hrow.1.survives hfirst hy) (survives_rows hrest hs hys)

/-- A valid diagram whose labels are in place is written as a text that is read as a diagram with the
same elements in the same order. -/
theorem survives_document (hr : ReadsBack R) {d : Diagram R} (hv : d.validate = .ok ())
    (hl : ∀ l, Element.label l ∈ d.labels.values → d.IsInPlace l) :
    ∃ text, (d.document standardCodec).result = .ok text ∧
      ∃ d' : Diagram R, (Diagram.ofText standardCodec text.toList).result = .ok d' ∧
        ∀ s, List.Forall₂ (Survives d) (d.shelf s).values (d'.shelf s).values := by
  obtain ⟨rows, hsound, hrows⟩ := exists_rows hr (Diagram.allLegible_of_validate hv hl)
  obtain ⟨d', hd', hyields⟩ := ofText_documentText hsound
  exact ⟨documentText R rows, hrows.document, d', hd', fun s =>
    survives_rows (hrows s) (fun row hrow => (hsound s row hrow).2) (hyields s)⟩

/-- A label that is bound to the edge of `specimen`. -/
def boundLabel : Label Exact :=
  ⟨.int 4, .pair (.int 0) (.int 0), .text "$p$",
    Binding.value ⟨.int 2, .text "mid", .pair (.int 0) (.int 7)⟩⟩

/-- One element of each kind. -/
def specimen : Diagram Exact where
  points := ⟨[(.int 1, .point ⟨.int 1, .pair (.int 10) (.int 20), .int 3⟩)]⟩
  edges := ⟨[(.int 2, .edge ⟨.int 2, .text "curve", .pair (.int 0) (.int 0), .pair (.int 40) (.int 0),
    .pair (.int 20) (.int 30), Style.value ⟨.text "wavy", rgb 255 0 0, .int 2, .text "mid-forward"⟩⟩)]⟩
  ellipses := ⟨[(.int 3, .ellipse ⟨.int 3, .pair (.int 5) (.int 5), .int 8, .int 9, black, .int 1⟩)]⟩
  labels := ⟨[(.int 4, .label boundLabel)]⟩
  next := .int 5

theorem boundLabel_isInPlace : specimen.IsInPlace boundLabel := by
  refine ⟨fun t ht => ?_, ?_⟩
  · cases ht
    decide +kernel
  · obtain ⟨⟨⟩, h⟩ := exists_of_isOk
      (x := (specimen.resolve boundLabel).result >>= checkPair (.label "4") .position) (by decide +kernel)
    obtain ⟨p, hp, h⟩ := bind_eq_ok.1 h
    exact ⟨p, hp, checkPair_eq_ok.1 h⟩

theorem survives_specimen : ReadsBack Exact ∧ specimen.validate = .ok () ∧
    (∀ l, Element.label l ∈ specimen.labels.values → specimen.IsInPlace l) ∧
    ∃ text, (specimen.document standardCodec).result = .ok text ∧
      ∃ d' : Diagram Exact, (Diagram.ofText standardCodec text.toList).result = .ok d' ∧
        ∀ s, List.Forall₂ (Survives specimen) (specimen.shelf s).values (d'.shelf s).values := by
  obtain ⟨⟨⟩, hv⟩ := exists_of_isOk (x := specimen.validate) (by decide +kernel)
  have hl : ∀ l, Element.label l ∈ specimen.labels.values → specimen.IsInPlace l := by
    intro l hl
    obtain rfl := Element.label.inj (List.mem_singleton.1 hl)
    exact boundLabel_isInPlace
  exact ⟨readsBack_exact, hv, hl, survives_document readsBack_exact hv hl⟩

end FeynmanTikz
