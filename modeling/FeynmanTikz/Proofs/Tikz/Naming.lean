/-
Edges that are written with other names.

A line does not name the tip or the key of its comment, so what depends on the names is what stands in
the option list and in the comment, and what is told from them.

* `IsCommentKey`: keys that an arrow comment can have,
* `IsRecognized`: whether an arrow style is told from what is written for it,
* `edgeStyle_named`: the style that is read is the one that is written, but for such an arrow style,
* `ofStatements_of_style`: what is built depends on options and comment only through the style,
* `edge_named`: so the line of an edge is read as that edge, but for an arrow that is not recognized,
* `arrow_unrecognized`: a key with a capital letter is enough for that.
-/
import FeynmanTikz.Proofs.Tikz.Acceptance
import FeynmanTikz.Proofs.Tikz.RoundTrip

namespace FeynmanTikz

open Edit

variable {R : Type} [Arithmetic R]

/-! ### What does not depend on names -/

section

variable (key tip : String)

theorem formatPath_named (e : Edge R) :
    formatPath (Codec.named key tip).given e = formatPath standardCodec e := rfl

theorem readLine_named (n : Nat) (line : List Char) :
    readLine (R := R) (Codec.named key tip).given n line = readLine standardCodec n line := by
  have hcoord : readCoordinate (R := R) (Codec.named key tip).given = readCoordinate standardCodec := rfl
  have hlength : readLength (R := R) (Codec.named key tip).given = readLength standardCodec := rfl
  have hbody (command : Token R) :
      readBody (Codec.named key tip).given command = readBody standardCodec command := by
    unfold readBody readPoint readDraw readLabel readEllipse
    rw [hcoord, hlength]
  unfold readLine readStatement readWhole
  simp only [hbody]

theorem read_named (options : Value R) :
    DrawOptions.read options (Codec.named key tip).given = DrawOptions.read options standardCodec := rfl

end

/-! ### Keys of comments -/

/-- A key that a comment can have: a letter, and then letters and hyphens. -/
def IsCommentKey (t : List Char) : Prop :=
  ∃ c rest, t = c :: rest ∧ isLetter c = true ∧ ∀ d ∈ rest, isKeyChar d = true

/-- The comment that is written for an arrow style under a key. -/
def namedComment (key arrow : String) : Option (List Char) :=
  if arrow ∈ commentedArrows then some (key.toList ++ ':' :: ' ' :: arrow.toList) else none

theorem isBlank_of_isLetter {c : Char} (h : isLetter c = true) : isBlank c = false := by
  have hrange := Starts.toNat_of_isLetter h
  simp only [isBlank, inRanges, blankRanges, List.any_cons, List.any_nil, Bool.or_false,
    Bool.or_eq_false_iff, Bool.and_eq_false_iff, decide_eq_false_iff_not]
  omega

theorem arrowComment_named (key tip arrow : String) :
    arrowComment (Codec.named key tip : Codec R) (.text arrow) =
      String.ofList (commentPart (namedComment key arrow)) := by
  unfold arrowComment namedComment
  by_cases hc : arrow ∈ commentedArrows
  · have hone : isOneOf commentedArrows (.text arrow : Value R) = true := List.contains_iff_mem.2 hc
    rw [if_pos hone, if_pos hc]
    refine String.toList_inj.1 ?_
    simp [commentPart, Codec.named, Value.plain]
  · have hnone : ¬isOneOf commentedArrows (.text arrow : Value R) = true :=
      fun h => hc (List.contains_iff_mem.1 h)
    rw [if_neg hnone, if_neg hc]
    rfl

namespace IsCommentKey

variable {key : List Char} {arrow : String}

theorem trim_comment (h : IsCommentKey key) (ha : arrow ∈ commentedArrows) :
    trim (key ++ ':' :: ' ' :: arrow.toList) = key ++ ':' :: ' ' :: arrow.toList := by
  obtain ⟨c, rest, rfl, hc, -⟩ := h
  have hlast : ∃ e, arrow.toList.getLast? = some e ∧ isBlank e = false := by
    simp only [commentedArrows, List.mem_cons, List.not_mem_nil, or_false] at ha
    rcases ha with rfl | rfl | rfl <;> exact ⟨_, rfl, rfl⟩
  obtain ⟨e, he, hblank⟩ := hlast
  refine trim_of_ends (c := c) (e := e) rfl (isBlank_of_isLetter hc) ?_ hblank
  simp [List.getLast?_append, List.getLast?_cons, he]

theorem commentParts?_eq (h : IsCommentKey key) (ha : arrow ∈ commentedArrows) :
    commentParts? (key ++ ':' :: ' ' :: arrow.toList) = some (key, arrow.toList) := by
  have htrim := h.trim_comment ha
  obtain ⟨c, rest, rfl, hc, hrest⟩ := h
  have htake : (rest ++ ':' :: ' ' :: arrow.toList).takeWhile isKeyChar = rest := by
    rw [List.takeWhile_append_of_pos hrest, List.takeWhile_cons_of_neg (by decide), List.append_nil]
  have hdrop : (rest ++ ':' :: ' ' :: arrow.toList).dropWhile isKeyChar = ':' :: ' ' :: arrow.toList := by
    rw [List.dropWhile_append_of_pos hrest, List.dropWhile_cons_of_neg (by decide)]
  unfold commentParts?
  rw [htrim, List.cons_append]
  dsimp only
  rw [if_pos hc, htake, hdrop]
  simp only [commentedArrows, List.mem_cons, List.not_mem_nil, or_false] at ha
  rcases ha with rfl | rfl | rfl <;> rfl

omit [Arithmetic R] in
theorem lexes (h : IsCommentKey key) (ha : arrow ∈ commentedArrows) :
    Lexes R (commentPart (some (key ++ ':' :: ' ' :: arrow.toList)))
      (commentTokens (some (key ++ ':' :: ' ' :: arrow.toList))) := by
  have hstart := Starts.comment (R := R) (' ' :: (key ++ ':' :: ' ' :: arrow.toList))
  rw [show trim (' ' :: (key ++ ':' :: ' ' :: arrow.toList)) = _ from h.trim_comment ha] at hstart
  exact (Lexes.nil.before hstart).space

/-- A key holds no blanks, so no line ends in it. -/
theorem oneLine (h : IsCommentKey key) : OneLine key := by
  have hletter {c : Char} (hc : isLetter c = true) : isLineBoundary c = false := by
    have := Starts.toNat_of_isLetter hc
    simp only [isLineBoundary, List.contains_eq_mem, decide_eq_false_iff_not, List.mem_cons,
      List.not_mem_nil, or_false]
    omega
  obtain ⟨c, rest, rfl, hc, hrest⟩ := h
  refine .cons (hletter hc) fun d hd => ?_
  rcases (Bool.or_eq_true _ _).mp (hrest d hd) with hl | hl
  · exact hletter hl
  · rw [beq_iff_eq.1 hl]
    rfl

end IsCommentKey

theorem lexes_namedComment (R : Type) {key : String} (hk : IsCommentKey key.toList) (arrow : String) :
    Lexes R (commentPart (namedComment key arrow)) (commentTokens (namedComment key arrow)) := by
  unfold namedComment
  by_cases hc : arrow ∈ commentedArrows
  · rw [if_pos hc]
    exact hk.lexes hc
  · rw [if_neg hc]
    exact Lexes.nil

theorem oneLine_namedComment {key arrow : String} (hk : IsCommentKey key.toList) (ha : arrow ∈ arrowStyles) :
    OneLine (commentPart (namedComment key arrow)) := by
  have harrow : OneLine arrow.toList := by
    simp only [arrowStyles, List.mem_cons, List.not_mem_nil, or_false] at ha
    rcases ha with rfl | rfl | rfl | rfl | rfl | rfl | rfl <;> decide
  unfold namedComment
  by_cases hc : arrow ∈ commentedArrows
  · rw [if_pos hc]
    exact .cons rfl (.cons rfl (.cons rfl (hk.oneLine.append (.cons rfl (.cons rfl harrow)))))
  · rw [if_neg hc]
    exact OneLine.nil

/-! ### What is read -/

/-- Whether an arrow style is recognized in what is written for it.  A style in the middle of an edge
stands in the comment, whose key is turned into small letters before it is compared with the one that is
looked for.  Any other stands in the tips, which an equals sign turns into a setting. -/
def IsRecognized (key tip arrow : String) : Prop :=
  if arrow ∈ commentedArrows then lower key.toList = key.toList else '=' ∉ tip.toList

instance (key tip arrow : String) : Decidable (IsRecognized key tip arrow) := by
  unfold IsRecognized
  infer_instance

/-- The arrow style that is read back. -/
def recognized (key tip arrow : String) : String := if IsRecognized key tip arrow then arrow else "none"

omit [Arithmetic R] in
theorem isArrowComment_of_parts {c : Codec R} {t key value : List Char}
    (h : commentParts? t = some (key, value)) :
    isArrowComment c.given (.text (String.ofList t)) =
      .ok (c.arrowKey.isWord (String.ofList (lower key))) := by
  have hchars : (Value.text (String.ofList t) : Value R).characters = .ok t := by
    rw [Value.characters, String.toList_ofList]
  unfold isArrowComment
  rw [hchars, ok_bind, h]
  rfl

theorem arrowOfComment_named {key : String} (hk : IsCommentKey key.toList) (tip : String) {arrow : String}
    (ha : arrow ∈ commentedArrows) : (arrowOfComment (Codec.named key tip).given
      (.text (String.ofList (key.toList ++ ':' :: ' ' :: arrow.toList)) : Value R)).result =
        .ok (if lower key.toList = key.toList then some arrow else none) := by
  have hparts := hk.commentParts?_eq ha
  have hword : (Codec.named key tip : Codec R).arrowKey.isWord (String.ofList (lower key.toList)) = true ↔
      lower key.toList = key.toList := by
    rw [Codec.named, Value.isWord, beq_iff_eq, ← String.toList_inj, String.toList_ofList, eq_comm]
  have hchars : (liftM (Value.text (String.ofList (key.toList ++ ':' :: ' ' :: arrow.toList)) :
      Value R).characters : Logged R (List Char)).result = .ok (key.toList ++ ':' :: ' ' :: arrow.toList) := by
    rw [Value.characters, String.toList_ofList]
    rfl
  unfold arrowOfComment
  rw [Logged.result_bind, isArrowComment_of_parts hparts]
  show (Except.ok _ >>= _) = _
  rw [ok_bind]
  by_cases hlower : lower key.toList = key.toList
  · rw [if_pos (hword.2 hlower), if_pos hlower, Logged.result_bind, hchars, ok_bind, hparts]
    simp only [commentedArrows, List.mem_cons, List.not_mem_nil, or_false] at ha
    rcases ha with rfl | rfl | rfl <;> rfl
  · rw [if_neg fun h => hlower (hword.1 h), if_neg hlower]
    rfl

/-- The comment and the tips together tell an arrow style that is recognized. -/
theorem exists_arrowOfComment_named {key : String} (hk : IsCommentKey key.toList) (tip arrow : String) :
    ∃ a, (arrowOfComment (Codec.named key tip).given
      (commentValue (namedComment key arrow) : Value R)).result = .ok a ∧
        a.getD (tipArrow tip arrow) = recognized key tip arrow := by
  unfold namedComment tipArrow recognized IsRecognized
  by_cases hc : arrow ∈ commentedArrows
  · refine ⟨if lower key.toList = key.toList then some arrow else none, ?_, ?_⟩
    · rw [if_pos hc]
      exact arrowOfComment_named hk tip hc
    · by_cases hlower : lower key.toList = key.toList <;> simp [hc, hlower]
  · refine ⟨none, ?_, ?_⟩
    · rw [if_neg hc]
      rfl
    · by_cases hequals : '=' ∈ tip.toList <;> simp [hc, hequals]

/-- The options of an edge that is written with another tip. -/
def namedOptions (R : Type) [Arithmetic R] (ink : Ink) (stroke tip arrow : String) : List Char :=
  joined (ink.entries ++ (strokeEntries R stroke ++ tipEntries R tip arrow))

/-- The style that is read is the one that is written, but for an arrow that is not recognized. -/
theorem edgeStyle_named {ink : Ink} (hi : ink.Sound R) {stroke arrow : String} (hs : stroke ∈ strokeKinds)
    (ha : arrow ∈ arrowStyles) {key tip : String} (hk : IsCommentKey key.toList)
    (ht : IsTipName tip.toList) (hw : ∀ w ∈ tipEntries R tip arrow, splitOptions w = [w]) :
    (edgeStyle (Codec.named key tip).given (.text (String.ofList (namedOptions R ink stroke tip arrow)))
        (commentValue (namedComment key arrow)) : Logged R (Value R)).result =
      .ok (Style.value ⟨.text stroke, ink.color, ink.strokeWidth, .text (recognized key tip arrow)⟩) := by
  have hread := read_append (List.rel_append hi.carries (carries_stroke hs)) (readEntries_tips ht ha hw)
  rw [List.append_assoc, List.append_assoc, ofEffects_tips hs ha, ← read_named key tip] at hread
  obtain ⟨a, harrow, hgetD⟩ := exists_arrowOfComment_named (R := R) hk tip arrow
  unfold edgeStyle namedOptions
  simp only [Logged.result_bind]
  rw [hread, ok_bind, harrow, ok_bind, hgetD]
  rfl

/-! ### The line of an edge -/

theorem passes_namedOptions {ink : Ink} (hi : ink.Sound R) {stroke arrow tip : String}
    (hs : stroke ∈ strokeKinds) (ha : arrow ∈ arrowStyles) (ht : IsTipName tip.toList) :
    passes [.square] (namedOptions R ink stroke tip arrow) = some [.square] ∧
      OneLine (namedOptions R ink stroke tip arrow) := by
  have hentries : ∀ w ∈ ink.entries ++ (strokeEntries R stroke ++ tipEntries R tip arrow),
      passes [.square] w = some [.square] ∧ OneLine w := by
    intro w hw
    rw [List.mem_append, List.mem_append] at hw
    rcases hw with hw | hw | hw
    · obtain ⟨e, he⟩ := exists_carries hi.carries w hw
      exact ⟨he.passed, he.oneLine⟩
    · obtain ⟨e, he⟩ := exists_carries (carries_stroke (R := R) hs) w hw
      exact ⟨he.passed, he.oneLine⟩
    · exact passes_tips ht ha w hw
  exact ⟨passes_joined fun w hw => (hentries w hw).1, oneLine_joined fun w hw => (hentries w hw).2⟩

theorem formatEdge_named {e : Edge R} {style : Style R} {start finish : Spot} {control : Option Spot}
    {ink : Ink} {stroke arrow : String} (hs : start.Of e.start) (hf : finish.Of e.finish)
    (hb : Bend e control) (hd : e.drawn = .ok style) (hi : ink.Of style.color style.strokeWidth)
    (hstroke : style.strokeKind = .text stroke) (hk : stroke ∈ strokeKinds)
    (ha : style.arrow = .text arrow) (key tip : String) :
    formatEdge (Codec.named key tip).given e = .ok (String.ofList
      (drawText (namedOptions R ink stroke tip arrow) start finish control (namedComment key arrow))) := by
  unfold formatEdge
  rw [formatPath_named, (hb.course hs hf).format, ok_bind, styleOptionsOf_eq _ hd,
    hi.styleOptions_named hstroke hk ha, ok_bind, hd, ok_bind, Codec.settings_given, ok_bind, ha,
    arrowComment_named]
  refine congrArg Except.ok (String.toList_inj.1 ((toList_draw _ start finish control _).trans ?_))
  rw [String.toList_ofList]
  rfl

/-! ### Reading the line again -/

section

variable {codec codec' : Given R (Codec R)} {start finish options options' comment comment' style : Value R}
  {control : Option (Value R)} (place place' : Place R)
  (hs : (edgeStyle codec options comment).result = .ok style)
  (hs' : (edgeStyle codec' options' comment').result = .ok style)

include hs hs'

/-- An edge is added with the style that has been read, wherever it has been read from. -/
theorem addStatement_of_style {wanted : String} {d d' : Diagram R}
    (h : (addStatement codec' wanted ⟨place', .edge start finish control options', comment'⟩).outcome d =
      (.ok (), d')) :
    (addStatement codec wanted ⟨place, .edge start finish control options, comment⟩).outcome d =
      (.ok (), d') := by
  by_cases hk : "edge" = wanted
  · have hadd {c : Given R (Codec R)} {o n : Value R} (hs : (edgeStyle c o n).result = .ok style)
        (p : Place R) : (addStatement c wanted ⟨p, .edge start finish control o, n⟩).outcome d =
          (forStatement ⟨p, .edge start finish control o, n⟩
            (Diagram.createEdge (.text (if control.isSome then "curve" else "straight")) start finish
              (control.getD .none) style)).outcome d := by
      have hkind : ¬(StatementBody.edge start finish control o).kind ≠ wanted := not_not_intro hk
      unfold addStatement
      dsimp only
      rw [if_neg hkind, Diagram.outcome_forStatement, outcome_liftLogged_bind_ok hs, Diagram.outcome_forStatement]
    rw [hadd hs'] at h
    rw [hadd hs]
    exact outcome_forStatement_congr h
  · have hpass {c : Given R (Codec R)} {o n : Value R} (p : Place R) :
        (addStatement c wanted ⟨p, .edge start finish control o, n⟩).outcome d = (.ok (), d) := by
      refine addStatement_of_kind ?_ d
      exact hk
    rw [hpass] at h ⊢
    exact h

/-- So a single edge is built into the same diagram. -/
theorem ofStatements_of_style {d : Diagram R}
    (h : (Diagram.ofStatements codec' [⟨place', .edge start finish control options', comment'⟩]).result =
      .ok d) :
    (Diagram.ofStatements codec [⟨place, .edge start finish control options, comment⟩]).result = .ok d := by
  have pass {wanted : String} {t t' : Diagram R} (h : (addStatements codec' wanted
      [⟨place', .edge start finish control options', comment'⟩]).outcome t = (.ok (), t')) :
      (addStatements codec wanted [⟨place, .edge start finish control options, comment⟩]).outcome t =
        (.ok (), t') := by
    rw [addStatements, outcome_bind_eq_ok] at h ⊢
    obtain ⟨⟨⟩, u, hadd, hrest⟩ := h
    exact ⟨(), u, addStatement_of_style place place' hs hs' hadd, hrest⟩
  obtain ⟨d₁, d₂, d₃, d₄, last, x, h₁, h₂, h₃, h₄, hrest⟩ := Diagram.ofStatements_eq_ok.1 h
  exact Diagram.ofStatements_eq_ok.2 ⟨d₁, d₂, d₃, d₄, last, x, pass h₁, pass h₂, pass h₃, pass h₄, hrest⟩

end

/-- No comma in the name of the tip tears the entry for the arrow of an edge. -/
def Edge.IsWhole (tip : String) (e : Edge R) : Prop :=
  ∀ style, e.drawn = .ok style → ∀ w ∈ arrowOptions style.arrow (.text tip), splitOptions w.toList = [w.toList]

theorem Edge.IsWhole.tips {tip : String} {e : Edge R} (h : e.IsWhole tip) {style : Style R}
    (hd : e.drawn = .ok style) {arrow : String} (ha : style.arrow = .text arrow) :
    ∀ w ∈ tipEntries R tip arrow, splitOptions w = [w] := by
  intro w hw
  obtain ⟨t, ht, rfl⟩ := List.mem_map.1 hw
  exact h style hd t (by rw [ha]; exact ht)

/-- No comma does if the name has matched its square brackets. -/
theorem Edge.isWhole_of_isMatched {e : Edge R} (he : e.check = .ok ()) {tip : String}
    (ht : IsTipName tip.toList) (hm : IsMatched tip.toList) : e.IsWhole tip := by
  obtain ⟨-, -, -, style, hd, hstyle⟩ := Edge.check_eq_ok.1 he
  obtain ⟨arrow, ha, harrow⟩ := hstyle.arrow
  intro style' hd' w hw
  obtain rfl : style = style' := Except.ok.inj (hd.symm.trans hd')
  rw [harrow] at hw
  have hentry : w.toList ∈ tipEntries R tip arrow := List.mem_map_of_mem hw
  rcases tipEntries_cases (R := R) tip ha with ⟨-, hnone⟩ | ⟨v, hsome, hv⟩
  · rw [hnone] at hentry
    cases hentry
  · rw [hsome] at hentry
    rw [List.mem_singleton.1 hentry]
    exact hv.splitOptions_eq ht hm

/-- The line of an edge is read as that edge, but for an arrow that is not recognized. -/
theorem ofText_draw {start finish : Spot} {control : Option Spot} {ink : Ink} {stroke arrow : String}
    (hrow : (Row.edge start finish control ink stroke arrow).Sound R) {key tip : String}
    (hk : IsCommentKey key.toList) (ht : IsTipName tip.toList)
    (hw : ∀ w ∈ tipEntries R tip arrow, splitOptions w = [w]) :
    ∃ (d : Diagram R) (id : Value R), (Diagram.ofText (Codec.named key tip).given (drawText
        (namedOptions R ink stroke tip arrow) start finish control (namedComment key arrow))).result =
          .ok d ∧
      ∀ s, (d.shelf s).values = if .edges = s then
        [(Row.edge start finish control ink stroke (recognized key tip arrow)).element R id] else [] := by
  obtain ⟨hs, hf, hc, hi, hstroke, ha⟩ := hrow
  have hback : recognized key tip arrow ∈ arrowStyles := by
    unfold recognized
    split
    · exact ha
    · decide
  -- The line says what a row with the arrow style that is recognized says.
  have hsaid : (Row.edge start finish control ink stroke (recognized key tip arrow)).Sound R :=
    ⟨hs, hf, hc, hi, hstroke, hback⟩
  obtain ⟨hpasses, hone⟩ := passes_namedOptions hi hstroke ha ht
  obtain ⟨place, hread⟩ := tells_draw (R := R) hpasses hs hf hc (lexes_namedComment R hk arrow) 1
  rw [← readLine_named key tip] at hread
  have hdocument := readDocument_of_statement
    (oneLine_draw hone start finish control (oneLine_namedComment hk ha)) (List.cons_ne_nil _ _) hread
  obtain ⟨d, id, hbuilt, hvalues⟩ := ofStatements_row hsaid place
  have hd := ofStatements_of_style place place (edgeStyle_named hi hstroke ha hk ht hw)
    (edgeStyle_eq hsaid) hbuilt
  refine ⟨d, id, ?_, hvalues⟩
  unfold Diagram.ofText
  simp only [Logged.result_bind]
  rw [hdocument, ok_bind]
  unfold drawBody
  rw [hd]
  rfl

/-- A valid edge is written, under any names, as a line that is read as one edge of the same stroke kind
and colour.  The arrow style is the same if it is recognized, and no arrow otherwise. -/
theorem edge_named (hr : ReadsBack R) {e : Edge R} (he : e.check = .ok ()) {key tip : String}
    (hk : IsCommentKey key.toList) (ht : IsTipName tip.toList) (hw : e.IsWhole tip) :
    ∃ text, formatEdge (Codec.named key tip).given e = .ok text ∧
      ∃ (d : Diagram R) (f : Edge R) (style style' : Style R) (arrow : String),
        (Diagram.ofText (Codec.named key tip).given text.toList).result = .ok d ∧
        (∀ s, (d.shelf s).values = if .edges = s then [.edge f] else []) ∧
        e.drawn = .ok style ∧ style.arrow = .text arrow ∧ f.drawn = .ok style' ∧
        style'.strokeKind = style.strokeKind ∧ CarriesColor style.color style'.color ∧
        style'.arrow = .text (recognized key tip arrow) := by
  obtain ⟨row, hof, hsound⟩ := exists_row hr (d := Diagram.empty) (e := .edge e) he
  cases hof with
  | @edge _ style start finish control ink stroke arrow hs hf hb hd hi hstroke hknown harrow =>
    obtain ⟨d, id, hd', hvalues⟩ := ofText_draw hsound hk ht (hw.tips hd harrow)
    refine ⟨_, formatEdge_named hs hf hb hd hi hstroke hknown harrow key tip, d, _, style, _, arrow, ?_,
      hvalues, hd, harrow, rfl, hstroke.symm, (hi.carries hsound.2.2.2.1).1, rfl⟩
    rw [String.toList_ofList]
    exact hd'

/-- An edge with an arrow in the middle. -/
def markedEdge : Edge Exact :=
  ⟨.int 1, .text "straight", .pair (.int 0) (.int 0), .pair (.int 40) (.int 0), .none,
    Style.value ⟨.text "wavy", rgb 255 0 0, .int 2, .text "mid-forward"⟩⟩

theorem edge_named_matched : ReadsBack Exact ∧ markedEdge.check = .ok () ∧
    IsCommentKey "arrow-style".toList ∧ IsTipName "Triangle[open, round]".toList ∧
    markedEdge.IsWhole "Triangle[open, round]" ∧
    ∃ text, formatEdge (Codec.named "arrow-style" "Triangle[open, round]").given markedEdge = .ok text ∧
      ∃ (d : Diagram Exact) (f : Edge Exact) (style : Style Exact),
        (Diagram.ofText (Codec.named "arrow-style" "Triangle[open, round]").given text.toList).result =
          .ok d ∧
        d.edges.values = [.edge f] ∧ f.drawn = .ok style ∧ style.strokeKind = .text "wavy" ∧
        CarriesColor (rgb 255 0 0) style.color ∧ style.arrow = .text "mid-forward" := by
  obtain ⟨⟨⟩, he⟩ := exists_of_isOk (x := markedEdge.check) (by decide +kernel)
  have hk : IsCommentKey "arrow-style".toList := ⟨'a', "rrow-style".toList, rfl, rfl, by decide⟩
  have ht : IsTipName "Triangle[open, round]".toList := ⟨by decide, by decide⟩
  have hinits : ∀ p ∈ "Triangle[open, round]".toList.inits, p.count ']' ≤ p.count '[' := by decide
  have hm : IsMatched "Triangle[open, round]".toList := fun _ p hp => hinits p ((List.mem_inits _ _).2 hp)
  have hw := Edge.isWhole_of_isMatched he ht hm
  obtain ⟨text, htext, d, f, style, style', arrow, hd, hvalues, hdrawn, ha, hf, hs, hc, ha'⟩ :=
    edge_named readsBack_exact he hk ht hw
  cases hdrawn
  cases ha
  refine ⟨readsBack_exact, he, hk, ht, hw, text, htext, d, f, style', hd, hvalues .edges, hf, hs, hc, ?_⟩
  exact ha'.trans (congrArg Value.text (by decide))

/-- Nothing matches a key that has a capital letter, and the arrow is lost. -/
theorem arrow_unrecognized : markedEdge.check = .ok () ∧ IsCommentKey "Edge-Arrow".toList ∧
    IsTipName "Stealth".toList ∧
    ∃ text, formatEdge (Codec.named "Edge-Arrow" "Stealth").given markedEdge = .ok text ∧
      ∃ (d : Diagram Exact) (f : Edge Exact) (style : Style Exact),
        (Diagram.ofText (Codec.named "Edge-Arrow" "Stealth").given text.toList).result = .ok d ∧
        d.edges.values = [.edge f] ∧ f.drawn = .ok style ∧ style.arrow = .text "none" := by
  obtain ⟨⟨⟩, he⟩ := exists_of_isOk (x := markedEdge.check) (by decide +kernel)
  have hk : IsCommentKey "Edge-Arrow".toList := ⟨'E', "dge-Arrow".toList, rfl, rfl, by decide⟩
  have ht : IsTipName "Stealth".toList := ⟨by decide, by decide⟩
  have hw := Edge.isWhole_of_isMatched he ht fun hc => absurd hc (by decide)
  refine ⟨he, hk, ht, ?_⟩
  obtain ⟨row, hof, hsound⟩ := exists_row readsBack_exact (d := Diagram.empty) (e := .edge markedEdge) he
  cases hof with
  | @edge _ style start finish control ink stroke arrow hs hf hb hd hi hstroke hknown harrow =>
    obtain ⟨d, id, hd', hvalues⟩ := ofText_draw hsound hk ht (hw.tips hd harrow)
    refine ⟨_, formatEdge_named hs hf hb hd hi hstroke hknown harrow _ _, d, _, _, ?_,
      hvalues .edges, rfl, ?_⟩
    · rw [String.toList_ofList]
      exact hd'
    · cases hd
      cases harrow
      exact congrArg Value.text (by decide)

end FeynmanTikz
