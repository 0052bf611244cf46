/-
A single label on its way through the text.

A valid label text has no line feed and no carriage return, but a text is cut into lines at other
characters as well.

* `spoils_label`: a statement that breaks off inside its group cannot be cut into tokens,
* `label_document`: a valid label survives if what is left of its text stays on a line; if it does not,
  the document is refused.
-/
import FeynmanTikz.Proofs.Tikz.RoundTrip

namespace FeynmanTikz

variable {R : Type}

/-! ### A statement that breaks off -/

theorem Spot.spoils (s : Spot) {t : List Char} (h : Spoils R t) : Spoils R (s.before t) := by
  refine Spoils.before ?_ (.leftParen _)
  refine Spoils.before (Spoils.before (Spoils.space ?_) (.comma _)) (.numeral s.x (by rintro c ⟨⟩; decide))
  exact (h.before (.rightParen _)).before (.numeral s.y (by rintro c ⟨⟩; decide))

/-- The statement of a label as it is written, in front of the text of its group. -/
def labelBefore (s : Spot) (t : List Char) : List Char :=
  '\\' :: ("node".toList ++ ' ' :: ("at".toList ++ ' ' :: s.before (' ' :: '\x7b' :: t)))

/-- A statement that breaks off inside its group cannot be cut into tokens. -/
theorem spoils_label (s : Spot) {t u : List Char} (h : bracesBalanced (t ++ u) = true) :
    Spoils R (labelBefore s t) := by
  have hgroup : Spoils R ('\x7b' :: t) := .of_unterminated (scanClosing_unterminated (k := 0) h)
  refine Spoils.before (Spoils.space ?_) (.command (by decide) (by decide) (by rintro c ⟨⟩; decide))
  exact (s.spoils hgroup.space).space.before (.wordToken (by decide) (by rintro c ⟨⟩; decide))

variable [Arithmetic R]

/-- A line that cannot be read is the end of reading. -/
theorem readLines_of_spoils {l : List Char} (h : Spoils R l) (n : Nat)
    (above : Option (Statement R)) (rest : List (List Char)) :
    ∃ f, (readLines (R := R) standardCodec n above (l :: rest)).result = .error f := by
  obtain ⟨f, hf⟩ := h (.int n) 1
  have hline : readLine (R := R) standardCodec n l = .error f := by
    unfold readLine tokenize
    rw [hf]
    rfl
  rw [readLines, hline]
  exact ⟨_, rfl⟩

/-! ### Where a label is cut -/

omit [Arithmetic R] in
theorem labelBefore_append (s : Spot) (t u : List Char) :
    labelBefore s (t ++ u) = labelBefore s t ++ u := by
  simp [labelBefore, Spot.before]

omit [Arithmetic R] in
theorem oneLine_labelBefore (s : Spot) {t : List Char} (ht : OneLine t) : OneLine (labelBefore s t) := by
  refine .cons rfl (OneLine.append (by decide) (.cons rfl (OneLine.append (by decide) ?_)))
  exact .cons rfl (s.oneLine (.cons rfl (.cons rfl ht)))

/-- A single row. -/
def singleLabel (s : Spot) (content : List Char) : Shelf → List Row
  | .labels => [.label s content]
  | _ => []

/-- The line on which a label that is cut begins. -/
theorem lines_of_cut (s : Spot) {a b : List Char} (ha : OneLine a) {c : Char}
    (hc : isLineBoundary c = true) (hne : c ≠ '\r') :
    ∃ rest, lines (documentText R (singleLabel s (a ++ c :: b))).toList =
      openingLines ++ ((indent.toList ++ labelBefore s ('$' :: a)) :: rest) := by
  have hrow : rowLine R (.label s (a ++ c :: b)) = (indent.toList ++ labelBefore s ('$' :: a)) ++
      c :: (b ++ ['$', '\x7d', ';']) := by
    rw [List.append_assoc, ← labelBefore_append]
    show indent.toList ++ labelBefore s (formula (a ++ c :: b) ++ ['\x7d', ';']) = _
    simp [formula]
  -- The document up to the cut is the opening lines and the beginning of the row.
  have htext : (documentText R (singleLabel s (a ++ c :: b))).toList = onLines openingLines ++
      ((indent.toList ++ labelBefore s ('$' :: a)) ++ c :: (b ++ ['$', '\x7d', ';'] ++ '\n' ::
        onLines [endPictureLine.toList])) := by
    rw [documentText, String.toList_ofList, documentLines, List.append_assoc, onLines_append]
    show _ ++ onLines [rowLine R (.label s (a ++ c :: b)), endPictureLine.toList] = _
    rw [hrow]
    simp [onLines]
  have hone : OneLine (indent.toList ++ labelBefore s ('$' :: a)) :=
    OneLine.append (by decide) (oneLine_labelBefore s (.cons rfl ha))
  rw [htext, lines_onLines_append _ oneLine_openingLines, lines_append hone hc hne]
  exact ⟨_, rfl⟩

/-- A document whose label is cut is refused. -/
theorem ofText_of_cut (s : Spot) {content : List Char} (ht : IsLabelText content)
    (hcut : ¬OneLine content) : ∃ f, (Diagram.ofText (R := R) standardCodec
      (documentText R (singleLabel s content)).toList).result = .error f := by
  obtain ⟨a, c, b, rfl, ha, hc⟩ := exists_cut hcut
  have hne : c ≠ '\r' := by
    rintro rfl
    have := ht.oneLine.2
    simp at this
  -- Up to the cut the group is open, since the braces are balanced only with what follows.
  have hbalanced : bracesBalanced (('$' :: a) ++ (c :: b ++ ['$'])) = true := by
    rw [← ht.balanced_formula]
    simp [formula]
  have hspoils : Spoils R (indent.toList ++ labelBefore s ('$' :: a)) :=
    (spoils_label s hbalanced).space.space
  obtain ⟨rest, hlines⟩ := lines_of_cut (R := R) s (b := b) ha hc hne
  obtain ⟨n, first, -, hopening⟩ := readLines_opening R
  obtain ⟨f, hf⟩ := readLines_of_spoils hspoils n (some first) rest
  refine ⟨f, ?_⟩
  unfold Diagram.ofText readDocument
  rw [Logged.result_bind, hlines, hopening, hf]
  rfl

/-! ### Single labels -/

/-- A diagram holds a label and nothing else. -/
structure Diagram.HoldsOnly (d : Diagram R) (l : Label R) : Prop where
  points : d.points.values = []
  edges : d.edges.values = []
  ellipses : d.ellipses.values = []
  labels : d.labels.values = [.label l]

omit [Arithmetic R] in
theorem forall₂_singleLabel {α : Type} {P : Shelf → α → Row → Prop} {s : Spot} {content : List Char}
    {es : Shelf → List α} : (∀ t, List.Forall₂ (P t) (es t) (singleLabel s content t)) ↔
      es .points = [] ∧ es .edges = [] ∧ es .ellipses = [] ∧
        ∃ e, es .labels = [e] ∧ P .labels e (.label s content) := by
  constructor
  · intro h
    obtain ⟨e, he⟩ : ∃ e, es .labels = [e] := List.length_eq_one_iff.1 (h .labels).length_eq
    have hlabel := h .labels
    rw [he] at hlabel
    obtain ⟨hp, -⟩ := List.forall₂_cons.1 hlabel
    exact ⟨List.forall₂_nil_right_iff.1 (h .points), List.forall₂_nil_right_iff.1 (h .edges),
      List.forall₂_nil_right_iff.1 (h .ellipses), e, he, hp⟩
  · rintro ⟨hp, he, hl, e, hb, hlabel⟩ t
    cases t with
    | points => exact hp ▸ .nil
    | edges => exact he ▸ .nil
    | ellipses => exact hl ▸ .nil
    | labels => exact hb ▸ .cons hlabel .nil

/-- A valid label that is bound to nothing survives in a document of its own exactly if what is left of
its text stays on a line.  Otherwise this document is refused. -/
theorem label_document (hr : ReadsBack R) {d : Diagram R} {l : Label R} (hd : d.HoldsOnly l)
    {edges : Value R} (hc : l.check edges = .ok ()) (hb : l.binding = .none) {t : String}
    (ht : l.text = .text t) : ∃ text : String, (d.document standardCodec).result = .ok text ∧
      ((∃ (d' : Diagram R) (k : Label R),
        (Diagram.ofText standardCodec text.toList).result = .ok d' ∧ d'.HoldsOnly k ∧
          k.text = .text (String.ofList (stripMath t.toList))) ↔ OneLine (stripMath t.toList)) ∧
      (¬OneLine (stripMath t.toList) →
        ∃ f, (Diagram.ofText (R := R) standardCodec text.toList).result = .error f) := by
  obtain ⟨⟨⟩, hposition, hc⟩ := bind_eq_ok.1 hc
  obtain ⟨⟨⟩, htext, -⟩ := bind_eq_ok.1 hc
  obtain ⟨t', ht', htext⟩ := checkLabelText_eq_ok.1 htext
  obtain rfl : t = t' := Value.text.inj (ht.symm.trans ht')
  obtain ⟨s, hs, hsound⟩ := (checkPair_eq_ok.1 hposition).exists_spot hr
  have hresolve : (d.resolve l).result = .ok l.position := by
    unfold Diagram.resolve Label.bound?
    rw [hb]
    rfl
  obtain ⟨hcontent, hstripped⟩ := htext.stripMath
  have hrows : Transcribes d (singleLabel s (stripMath t.toList)) :=
    forall₂_singleLabel.2 ⟨hd.points, hd.edges, hd.ellipses, _, hd.labels, .label hresolve hs ht, rfl⟩
  have hrefused := ofText_of_cut (R := R) s hcontent
  refine ⟨_, hrows.document, ⟨?_, fun hone => ?_⟩, hrefused⟩
  · rintro ⟨d', k, hd', -⟩
    by_contra hcut
    obtain ⟨f, hf⟩ := hrefused hcut
    rw [hf] at hd'
    cases hd'
  · have hrow : AreSound R (singleLabel s (stripMath t.toList)) := by
      intro shelf row hrow
      cases shelf with
      | points | edges | ellipses => cases hrow
      | labels =>
        obtain rfl := List.mem_singleton.1 hrow
        exact ⟨rfl, hsound, hcontent, hstripped, hone⟩
    obtain ⟨d', hd', hyields⟩ := ofText_documentText hrow
    obtain ⟨hpoints, hedges, hellipses, e, hlabels, id, rfl⟩ :=
      (forall₂_singleLabel (P := fun _ e row => row.Yields e)).1 fun t => (hyields t).flip
    exact ⟨d', _, hd', ⟨hpoints, hedges, hellipses, hlabels⟩, rfl⟩

/-- A label with some text, bound to nothing. -/
def noted (t : String) : Label Exact := ⟨.int 1, .pair (.int 0) (.int 20), .text t, .none⟩

/-- The diagram that holds only this label. -/
def notedDiagram (t : String) : Diagram Exact where
  labels := ⟨[(.int 1, .label (noted t))]⟩
  next := .int 2

theorem label_document_gamma : ReadsBack Exact ∧
    (notedDiagram "$\\gamma_1$ ").HoldsOnly (noted "$\\gamma_1$ ") ∧
    (noted "$\\gamma_1$ ").check .none = .ok () ∧
    ∃ text : String, ((notedDiagram "$\\gamma_1$ ").document standardCodec).result = .ok text ∧
      ∃ (d' : Diagram Exact) (k : Label Exact),
        (Diagram.ofText standardCodec text.toList).result = .ok d' ∧ d'.HoldsOnly k ∧
          k.text = .text "\\gamma_1" := by
  have hd : (notedDiagram "$\\gamma_1$ ").HoldsOnly (noted "$\\gamma_1$ ") := ⟨rfl, rfl, rfl, rfl⟩
  obtain ⟨⟨⟩, hc⟩ := exists_of_isOk (x := (noted "$\\gamma_1$ ").check .none) (by decide +kernel)
  have hleft : stripMath "$\\gamma_1$ ".toList = "\\gamma_1".toList := by decide +kernel
  obtain ⟨text, htext, hiff, -⟩ := label_document readsBack_exact hd hc rfl rfl
  obtain ⟨d', k, hd', hk, ht⟩ := hiff.2 (by decide +kernel)
  rw [hleft, String.ofList_toList] at ht
  exact ⟨readsBack_exact, hd, hc, text, htext, d', k, hd', hk, ht⟩

/-- A valid label whose document is refused, because a line separator stands in its text. -/
theorem separated_label_refused : (noted "a\u2028b").check .none = .ok () ∧
    ∃ text : String, ((notedDiagram "a\u2028b").document standardCodec).result = .ok text ∧
      ∃ f, (Diagram.ofText (R := Exact) standardCodec text.toList).result = .error f := by
  obtain ⟨⟨⟩, hc⟩ := exists_of_isOk (x := (noted "a\u2028b").check .none) (by decide +kernel)
  obtain ⟨text, htext⟩ := exists_of_isOk
    (x := ((notedDiagram "a\u2028b").document standardCodec).result) (by decide +kernel)
  have hrefused : (((notedDiagram "a\u2028b").document standardCodec).result >>= fun text =>
      (Diagram.ofText (R := Exact) standardCodec text.toList).result).isOk = false := by decide +kernel
  rw [htext, ok_bind] at hrefused
  rcases hresult : (Diagram.ofText (R := Exact) standardCodec text.toList).result with f | d
  · exact ⟨hc, text, htext, f, hresult⟩
  · rw [hresult] at hrefused
    cases hrefused

end FeynmanTikz
