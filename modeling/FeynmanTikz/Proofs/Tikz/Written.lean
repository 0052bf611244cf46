/-
Rows are what the writer writes.

* `Measure.Writes`: a valid number is printed as a numeral,
* `Row.Of`: a row has been written for an element of a diagram,
* `Row.Of.states`, `Row.Of.formatted`: the text of the row is the statement of the element, and the one
  the writer writes,
* `Row.Of.again`: what is read from the row is written as the same row again.
-/
import FeynmanTikz.Proofs.Tikz.Rows
import FeynmanTikz.Proofs.Tikz.Statements
import FeynmanTikz.Proofs.Tikz.Tips

namespace FeynmanTikz

variable {R : Type} [Arithmetic R]

/-- A valid number is printed as a numeral. -/
structure Measure.Writes (m : Measure) (x : Scalar R) (h : Hundredths) : Prop where
  admits : m.Admits x
  printed : m.printed (.number x) = .ok h.string

/-- The numerals of a position. -/
def Spot.Of (s : Spot) (p : Value R) : Prop :=
  ∃ x y, IsPair p x y ∧ Measure.abscissa.Writes x s.x ∧ Measure.ordinate.Writes y s.y

/-- A colour and a width, and the numerals of both. -/
structure Ink.Of (i : Ink) (color width : Value R) : Prop where
  color : IsTriple color i.red i.green i.blue
  width : ∃ x, width = .number x ∧ Measure.lineWidth.Writes x i.width

/-- Whether there is a control point, and its numerals. -/
inductive Bend (e : Edge R) : Option Spot → Prop where
  | straight (kind : e.kind = .text "straight") (control : e.control = .none) : Bend e none
  | curve {s : Spot} (kind : e.kind = .text "curve") (control : s.Of e.control) : Bend e (some s)

/-- A row has been written for an element. -/
inductive Row.Of (d : Diagram R) : Element R → Row → Prop where
  | point {p : Point R} {s : Spot} {x : Scalar R} {r : Hundredths} (position : s.Of p.position)
      (radius : p.radius = .number x) (printed : Measure.pointRadius.Writes x r) :
      Row.Of d (.point p) (.point s r)
  | edge {e : Edge R} {style : Style R} {start finish : Spot} {control : Option Spot} {ink : Ink}
      {stroke arrow : String} (hstart : start.Of e.start) (hfinish : finish.Of e.finish)
      (bend : Bend e control) (drawn : e.drawn = .ok style)
      (hink : ink.Of style.color style.strokeWidth) (hstroke : style.strokeKind = .text stroke)
      (known : stroke ∈ strokeKinds) (harrow : style.arrow = .text arrow) :
      Row.Of d (.edge e) (.edge start finish control ink stroke arrow)
  | ellipse {e : Ellipse R} {center : Spot} {x y : Scalar R} {rx ry : Hundredths} {ink : Ink}
      (hcenter : center.Of e.center) (hx : e.rx = .number x) (hy : e.ry = .number y)
      (hrx : Measure.ellipseRadius.Writes x rx) (hry : Measure.ellipseRadius.Writes y ry)
      (hink : ink.Of e.color e.strokeWidth) : Row.Of d (.ellipse e) (.ellipse center rx ry ink)
  | label {l : Label R} {p : Value R} {s : Spot} {t : String} (resolved : (d.resolve l).result = .ok p)
      (position : s.Of p) (text : l.text = .text t) :
      Row.Of d (.label l) (.label s (stripMath t.toList))

/-! ### Parts of a statement -/

theorem Spot.before_eq (s : Spot) (t : List Char) : s.before t = s.before [] ++ t := by
  simp [before]

theorem pathBefore_eq (start finish : Spot) (t : List Char) (control : Option Spot) :
    pathBefore start finish t control = pathBefore start finish [] control ++ t := by
  cases control <;> simp [pathBefore, Spot.before]

theorem Spot.Of.format {s : Spot} {p : Value R} (h : s.Of p) :
    formatCoordinate standardCodec p = .ok (String.ofList (s.before [])) := by
  obtain ⟨x, y, hp, hx, hy⟩ := h
  rw [formatCoordinate_eq hp hx.printed hy.printed]
  refine congrArg Except.ok (String.toList_inj.1 ?_)
  simp [Spot.before, Hundredths.string]

theorem Ink.Of.width_eq {i : Ink} {color width : Value R} (h : i.Of color width) :
    formatLineWidth standardCodec width = .ok (String.ofList (i.width.text ++ "pt".toList)) := by
  obtain ⟨x, rfl, hx⟩ := h.width
  rw [formatLineWidth_eq, hx.printed]
  refine congrArg Except.ok (String.toList_inj.1 ?_)
  simp [Hundredths.string]

/-- The entries of an ink as they are written. -/
theorem Ink.map_entries (i : Ink) : i.entries.map String.ofList =
    ["draw=" ++ String.ofList (rgbText i.red i.green i.blue),
      "line width=" ++ String.ofList (i.width.text ++ "pt".toList)] := by
  simp only [Ink.entries, List.map_cons, List.map_nil, String.ofList_append, String.ofList_toList]

theorem commaSeparated_eq : ∀ ws : List (List Char),
    Value.commaSeparated (ws.map String.ofList) = String.ofList (joined ws)
  | [] => rfl
  | [w] => by simp [Value.commaSeparated, joined]
  | w :: v :: ws => by
    have ih := commaSeparated_eq (v :: ws)
    unfold Value.commaSeparated at ih ⊢
    rw [List.map_cons, List.map_cons, String.intercalate_cons_cons, ← List.map_cons, ih]
    refine String.toList_inj.1 ?_
    simp [joined]

/-- The options of a style, whatever the tip is called. -/
theorem Ink.Of.styleOptions_named {i : Ink} {style : Style R} {stroke arrow : String}
    (h : i.Of style.color style.strokeWidth) (hs : style.strokeKind = .text stroke)
    (hk : stroke ∈ strokeKinds) (ha : style.arrow = .text arrow) (key tip : String) :
    styleOptions (Codec.named key tip).given style = .ok (String.ofList
      (joined (i.entries ++ (strokeEntries R stroke ++ tipEntries R tip arrow)))) := by
  have hwidth : formatLineWidth (Codec.named key tip).given style.strokeWidth = _ := h.width_eq
  unfold FeynmanTikz.styleOptions
  rw [tikzColor_eq h.color, hwidth, hs, strokeOptions_eq hk, ha, Codec.settings_given]
  simp only [ok_bind]
  rw [show (Codec.named key tip : Codec R).tipName = .text tip from rfl, arrowOptions_eq, ← commaSeparated_eq,
    List.map_append, List.map_append, i.map_entries, List.append_assoc]
  rfl

theorem Ink.Of.styleOptions {i : Ink} {style : Style R} {stroke arrow : String}
    (h : i.Of style.color style.strokeWidth) (hs : style.strokeKind = .text stroke)
    (hk : stroke ∈ strokeKinds) (ha : style.arrow = .text arrow) :
    styleOptions standardCodec style = .ok (String.ofList
      (joined (i.entries ++ (strokeEntries R stroke ++ arrowEntries R arrow)))) :=
  h.styleOptions_named hs hk ha "edge-arrow" "Stealth"

theorem Bend.course {e : Edge R} {start finish : Spot} {control : Option Spot}
    (hs : start.Of e.start) (hf : finish.Of e.finish) (h : Bend e control) :
    e.Course (String.ofList (pathBefore start finish [] control)) := by
  cases h with
  | straight kind control =>
    have hc := Edge.Course.chord kind hs.format hf.format
    refine cast (congrArg e.Course (String.toList_inj.1 ?_)) hc
    simp [pathBefore, Spot.before]
  | curve kind control =>
    have hc := Edge.Course.bow kind hs.format control.format hf.format
    refine cast (congrArg e.Course (String.toList_inj.1 ?_)) hc
    simp [pathBefore, Spot.before]

theorem arrowComment_eq (arrow : String) :
    arrowComment (Codec.standard : Codec R) (.text arrow) =
      String.ofList (commentPart (arrowCommentText arrow)) := by
  unfold arrowComment arrowCommentText
  by_cases hc : commentedArrows.contains arrow = true
  · rw [if_pos (show isOneOf commentedArrows (.text arrow : Value R) = true from hc), if_pos hc]
    refine String.toList_inj.1 ?_
    simp [commentPart, Codec.standard, Value.plain]
  · rw [if_neg (show ¬isOneOf commentedArrows (.text arrow : Value R) = true from hc), if_neg hc]
    rfl

theorem toList_draw (options : List Char) (start finish : Spot) (control : Option Spot)
    (comment : Option (List Char)) : ("\\draw[" ++ String.ofList options ++ "] " ++
      String.ofList (pathBefore start finish [] control) ++ ";" ++
      String.ofList (commentPart comment)).toList = drawText options start finish control comment := by
  unfold drawText
  rw [pathBefore_eq start finish (';' :: _)]
  simp

/-! ### Whole statements -/

/-- The text of a row is the statement of its element. -/
theorem Row.Of.states {d : Diagram R} {e : Element R} {row : Row} (h : Row.Of d e row) :
    ∃ t, d.States e t ∧ t.toList = row.text R := by
  cases h with
  | point position radius printed =>
    refine ⟨_, .point position.format (radius ▸ printed.printed), ?_⟩
    unfold Row.text radiusText Spot.before
    simp [Hundredths.string]
  | @edge e style start finish control ink stroke arrow hs hf bend drawn hink hstroke hk ha =>
    refine ⟨_, .edge (bend.course hs hf) drawn (hink.styleOptions hstroke hk ha), ?_⟩
    rw [ha, arrowComment_eq]
    exact toList_draw _ start finish control _
  | @ellipse e center x y rx ry ink hcenter hx hy hrx hry hink =>
    have hoptions : Value.commaSeparated ["fill=" ++ (Codec.standard : Codec R).ellipseFill.plain,
        "draw=" ++ String.ofList (rgbText ink.red ink.green ink.blue),
        "line width=" ++ String.ofList (ink.width.text ++ "pt".toList)] =
          String.ofList (joined ((Row.ellipse center rx ry ink).entries R)) := by
      rw [← commaSeparated_eq]
      unfold Row.entries fillEntry
      rw [List.map_cons, ink.map_entries, String.ofList_toList]
      rfl
    refine ⟨_, .ellipse hcenter.format (hx ▸ hrx.printed) (hy ▸ hry.printed)
      (tikzColor_eq hink.color) hink.width_eq, ?_⟩
    rw [hoptions]
    unfold Row.text radiiText
    dsimp only
    rw [Spot.before_eq center (' ' :: _)]
    simp [Hundredths.string]
  | @label l p s t resolved position text =>
    refine ⟨_, .label resolved position.format, ?_⟩
    rw [text]
    unfold Row.text
    dsimp only
    rw [Spot.before_eq s (' ' :: _)]
    simp [inBraces, formula, textOf, Value.plain]

/-- The writer turns an element into the text of its row. -/
theorem Row.Of.formatted {d : Diagram R} {e : Element R} {row : Row} (h : Row.Of d e row) :
    d.formatted row.shelf e = .ok (String.ofList (row.text R)) := by
  obtain ⟨t, ht, htext⟩ := h.states
  rw [← htext, String.ofList_toList]
  exact ht.formatted (by cases h <;> rfl)

/-! ### Every element that is valid has a row -/

/-- Whether an element of a diagram is valid and can be written on a line.  A label is judged by where
it stands. -/
def Diagram.IsLegible (d : Diagram R) : Element R → Prop
  | .point p => p.check = .ok ()
  | .edge e => e.check = .ok ()
  | .ellipse e => e.check = .ok ()
  | .label l => (∃ t, l.text = .text t ∧ IsLabelText t.toList ∧ OneLine (stripMath t.toList)) ∧
      ∃ p, (d.resolve l).result = .ok p ∧ IsPosition p

theorem Measure.exists_writes (hr : ReadsBack R) {m : Measure} {x : Scalar R} (hx : m.Admits x) :
    ∃ h, m.Writes x h ∧ m.Sound R h := by
  obtain ⟨y, hrec, hy⟩ := hr m x hx
  obtain ⟨h, hp, ha, rfl⟩ := hrec.eq_real
  exact ⟨h, ⟨hx, hp⟩, ha, hy⟩

theorem IsPosition.exists_spot (hr : ReadsBack R) {p : Value R} (hp : IsPosition p) :
    ∃ s : Spot, s.Of p ∧ s.Sound R := by
  obtain ⟨x, y, hpair, hx, hy⟩ := hp
  obtain ⟨hX, hwx, hsx⟩ := Measure.exists_writes hr (m := .abscissa) hx
  obtain ⟨hY, hwy, hsy⟩ := Measure.exists_writes hr (m := .ordinate) hy
  exact ⟨⟨hX, hY⟩, ⟨x, y, hpair, hwx, hwy⟩, hsx, hsy⟩

theorem exists_ink (hr : ReadsBack R) {color width : Value R} (hc : IsColor color)
    (hw : ∃ x, width = .number x ∧ IsPositive x) : ∃ i : Ink, i.Of color width ∧ i.Sound R := by
  obtain ⟨r, g, b, htriple, hr', hg, hb⟩ := hc
  obtain ⟨x, rfl, hx⟩ := hw
  obtain ⟨h, hwrites, hs⟩ := Measure.exists_writes hr (m := .lineWidth) hx
  exact ⟨⟨r, g, b, h⟩, ⟨htriple, x, rfl, hwrites⟩, hr', hg, hb, hs⟩

/-- What is left of the text of a label can be the text of a label. -/
theorem IsLabelText.stripMath {t : List Char} (h : IsLabelText t) :
    IsLabelText (stripMath t) ∧ IsStripped (stripMath t) := by
  obtain ⟨-, -, -, -, -, hstripped, hclosed⟩ := stripMath_spec t
  have hnot {c : Char} (hc : t.contains c = false) : (FeynmanTikz.stripMath t).contains c = false := by
    rw [List.contains_eq_mem, decide_eq_false_iff_not] at hc ⊢
    exact fun hm => hc (mem_of_mem_stripMath hm)
  refine ⟨⟨⟨hnot h.oneLine.1, hnot h.oneLine.2⟩, ?_, hclosed h.closed⟩, hstripped⟩
  · rw [bracesBalanced_stripMath h.closed]
    exact h.balanced

/-- A legible element is written as a row that can be read back. -/
theorem exists_row (hr : ReadsBack R) {d : Diagram R} {e : Element R} (h : d.IsLegible e) :
    ∃ row, Row.Of d e row ∧ row.Sound R := by
  cases e with
  | point p =>
    obtain ⟨hp, x, hx, hpos⟩ := Point.check_eq_ok.1 h
    obtain ⟨s, hs, hsound⟩ := hp.exists_spot hr
    obtain ⟨r, hw, hrsound⟩ := Measure.exists_writes hr (m := .pointRadius) hpos
    exact ⟨_, .point hs hx hw, hsound, hrsound⟩
  | edge e =>
    obtain ⟨hstart, hfinish, hbend, style, hdrawn, hstyle⟩ := Edge.check_eq_ok.1 h
    obtain ⟨s, hs, hssound⟩ := hstart.exists_spot hr
    obtain ⟨f, hf, hfsound⟩ := hfinish.exists_spot hr
    obtain ⟨i, hi, hisound⟩ := exists_ink hr hstyle.color hstyle.width
    obtain ⟨stroke, hk, hstroke⟩ := hstyle.stroke
    obtain ⟨arrow, ha, harrow⟩ := hstyle.arrow
    rcases hbend with ⟨hkind, hcontrol⟩ | ⟨hkind, hcontrol⟩
    · exact ⟨_, .edge hs hf (.straight hkind hcontrol) hdrawn hi hstroke hk harrow,
        hssound, hfsound, by simp, hisound, hk, ha⟩
    · obtain ⟨c, hc, hcsound⟩ := hcontrol.exists_spot hr
      exact ⟨_, .edge hs hf (.curve hkind hc) hdrawn hi hstroke hk harrow,
        hssound, hfsound, by rintro _ ⟨⟩; exact hcsound, hisound, hk, ha⟩
  | ellipse e =>
    obtain ⟨hcenter, ⟨x, hx, hxr⟩, ⟨y, hy, hyr⟩, hcolor, hwidth⟩ := Ellipse.check_eq_ok.1 h
    obtain ⟨c, hc, hcsound⟩ := hcenter.exists_spot hr
    obtain ⟨rx, hrx, hrxsound⟩ := Measure.exists_writes hr (m := .ellipseRadius) hxr
    obtain ⟨ry, hry, hrysound⟩ := Measure.exists_writes hr (m := .ellipseRadius) hyr
    obtain ⟨i, hi, hisound⟩ := exists_ink hr hcolor hwidth
    exact ⟨_, .ellipse hc hx hy hrx hry hi, hcsound, hrxsound, hrysound, hisound⟩
  | label l =>
    obtain ⟨⟨t, ht, htext, hone⟩, p, hp, hpos⟩ := h
    obtain ⟨s, hs, hsound⟩ := hpos.exists_spot hr
    exact ⟨_, .label hp hs ht, hsound, htext.stripMath.1, htext.stripMath.2, hone⟩

/-! ### What is read is written in the same way -/

theorem Measure.Writes.again (hp : PrintsAgain R) {m : Measure} {x : Scalar R} {h : Hundredths}
    (hw : m.Writes x h) (hs : m.Sound R h) : m.Writes (.real (m.value h : R)) h := by
  refine ⟨hs.2, ?_⟩
  rw [hp m x (.real (m.value h)) hw.admits ⟨h, hw.printed, recovered_eq_ok.2 ⟨hs.1, rfl⟩⟩]
  exact hw.printed

theorem Spot.Of.again (hp : PrintsAgain R) {p : Value R} {s : Spot} (h : s.Of p) (hs : s.Sound R) :
    s.Of (s.value : Value R) := by
  obtain ⟨x, y, -, hx, hy⟩ := h
  exact ⟨_, _, .inl rfl, hx.again hp hs.x, hy.again hp hs.y⟩

theorem Ink.Of.again (hp : PrintsAgain R) {color width : Value R} {i : Ink} (h : i.Of color width)
    (hs : i.Sound R) : i.Of (i.color : Value R) i.strokeWidth := by
  obtain ⟨-, x, -, hx⟩ := h
  exact ⟨.inl rfl, _, rfl, hx.again hp hs.width⟩

/-- What is read from a row is written as this row. -/
theorem Row.Of.again (hp : PrintsAgain R) {d : Diagram R} {e : Element R} {row : Row}
    (h : Row.Of d e row) (hs : row.Sound R) (d' : Diagram R) (id : Value R) :
    Row.Of d' (row.element R id) row := by
  cases h with
  | point position radius printed =>
    exact .point (position.again hp hs.1) rfl (printed.again hp hs.2)
  | edge hstart hfinish bend drawn hink hstroke hk harrow =>
    obtain ⟨hsstart, hsfinish, hscontrol, hsink, -⟩ := hs
    refine .edge (hstart.again hp hsstart) (hfinish.again hp hsfinish) ?_ rfl (hink.again hp hsink) rfl hk
      rfl
    cases bend with
    | straight kind control => exact .straight rfl rfl
    | curve kind control => exact .curve rfl (control.again hp (hscontrol _ rfl))
  | ellipse hcenter hx hy hrx hry hink =>
    obtain ⟨hscenter, hsrx, hsry, hsink⟩ := hs
    exact .ellipse (hcenter.again hp hscenter) rfl rfl (hrx.again hp hsrx) (hry.again hp hsry)
      (hink.again hp hsink)
  | @label l p s t resolved position text =>
    obtain ⟨hspot, htext, hstripped, -⟩ := hs
    -- What has been stripped once is not changed by stripping it again.
    have hsame : stripMath (String.ofList (stripMath t.toList)).toList = stripMath t.toList := by
      rw [String.toList_ofList, stripMath_of_isStripped hstripped htext.closed]
    have hof := Row.Of.label (d := d')
      (l := ⟨id, s.value, .text (String.ofList (stripMath t.toList)), .none⟩) (p := s.value) rfl
      (position.again hp hspot) rfl
    rw [hsame] at hof
    exact hof

end FeynmanTikz
