/-
Which diagram an accepted text is read as, and where a refused text is at fault.

* `Agree`: two lists of statements say the same about each kind of element, whatever stands in between
  and wherever they stand,
* `ofStatements_congr`: such statements are built into the same diagram,
* `exists_stripped`: the text of a label that has been read has been stripped,
* `ofText_canonical`: an accepted text is read as a valid diagram whose ids count from one, collection
  by collection and each in the order of the text,
* `IsAcceptable`, `ofText_reads_or_refuses`: which texts are accepted; all others are unreadable, and
  nothing else happens,
* `LocatedOn`: a message starts with a place on a line,
* `ofText_refused`: a refused text is at fault on one of its lines, and the message starts with a place
  on that line, unless the line ends too early.
-/
import FeynmanTikz.Proofs.Number.Exact
import FeynmanTikz.Proofs.Tikz.Totality

namespace FeynmanTikz

open Edit

variable {R : Type} [Arithmetic R]

/-! ### What statements say -/

/-- What a statement says, wherever it stands. -/
def Statement.said (s : Statement R) : StatementBody R × Value R := (s.body, s.comment)

/-- Statements that say the same about each kind of element, in the same order. -/
def Agree (ss ss' : List (Statement R)) : Prop := ∀ shelf : Shelf,
  (ss.filter (·.body.kind = shelf.kind)).map Statement.said =
    (ss'.filter (·.body.kind = shelf.kind)).map Statement.said

omit [Arithmetic R] in
/-- The place of a statement matters only to its faults. -/
theorem outcome_forStatement_congr {α : Type} {m : Diagram.Mutation R α} {s s' : Statement R}
    {d d' : Diagram R} (h : (forStatement s m).outcome d = (.ok (), d')) :
    (forStatement s' m).outcome d = (.ok (), d') := by
  rw [Diagram.outcome_forStatement] at h ⊢
  rcases hm : m.outcome d with ⟨e | a, t⟩
  · rw [hm] at h
    cases h
  · rw [hm] at h
    cases h
    rfl

theorem addStatement_congr {codec : Given R (Codec R)} {wanted : String} {s s' : Statement R}
    (hs : s.said = s'.said) {d d' : Diagram R}
    (h : (addStatement codec wanted s).outcome d = (.ok (), d')) :
    (addStatement codec wanted s').outcome d = (.ok (), d') := by
  obtain ⟨p, b, c⟩ := s
  obtain ⟨p', b', c'⟩ := s'
  cases hs
  unfold addStatement at h ⊢
  dsimp only at h ⊢
  by_cases hk : b.kind ≠ wanted
  · rw [if_pos hk] at h ⊢
    exact h
  · rw [if_neg hk] at h ⊢
    cases b with
    | point | edge | ellipse | label => exact outcome_forStatement_congr h
    | beginPicture | endPicture => exact h

/-- Statements of other kinds are passed over. -/
theorem addStatements_filter (codec : Given R (Codec R)) (wanted : String) (ss : List (Statement R))
    (d : Diagram R) : (addStatements codec wanted ss).outcome d =
      (addStatements codec wanted (ss.filter (·.body.kind = wanted))).outcome d := by
  induction ss generalizing d with
  | nil => rfl
  | cons s ss ih =>
    by_cases hk : s.body.kind = wanted
    · rw [List.filter_cons_of_pos (by simpa using hk), addStatements, addStatements, outcome_bind,
        outcome_bind]
      rcases (addStatement codec wanted s).outcome d with ⟨e | _, t⟩
      · rfl
      · exact ih t
    · rw [List.filter_cons_of_neg (by simpa using hk), addStatements,
        outcome_bind_ok (addStatement_of_kind hk d)]
      exact ih d

theorem addStatements_congr {codec : Given R (Codec R)} {wanted : String} :
    ∀ {ss ss' : List (Statement R)} {d d' : Diagram R}, ss.map Statement.said = ss'.map Statement.said →
      (addStatements codec wanted ss).outcome d = (.ok (), d') →
      (addStatements codec wanted ss').outcome d = (.ok (), d')
  | [], [], _, _, _, h => h
  | s :: ss, s' :: ss', d, d', hs, h => by
    rw [List.map_cons, List.map_cons, List.cons.injEq] at hs
    rw [addStatements, outcome_bind_eq_ok] at h ⊢
    obtain ⟨⟨⟩, t, hadd, h⟩ := h
    exact ⟨(), t, addStatement_congr hs.1 hadd, addStatements_congr hs.2 h⟩

/-- Statements that agree are built into the same diagram. -/
theorem ofStatements_congr {codec : Given R (Codec R)} {ss ss' : List (Statement R)} (hs : Agree ss ss')
    {d : Diagram R} (h : (Diagram.ofStatements codec ss).result = .ok d) :
    (Diagram.ofStatements codec ss').result = .ok d := by
  have pass (shelf : Shelf) {t t' : Diagram R}
      (h : (addStatements codec shelf.kind ss).outcome t = (.ok (), t')) :
      (addStatements codec shelf.kind ss').outcome t = (.ok (), t') := by
    rw [addStatements_filter] at h ⊢
    exact addStatements_congr (hs shelf) h
  obtain ⟨d₁, d₂, d₃, d₄, last, x, h₁, h₂, h₃, h₄, hrest⟩ := Diagram.ofStatements_eq_ok.1 h
  exact Diagram.ofStatements_eq_ok.2 ⟨d₁, d₂, d₃, d₄, last, x, pass .points h₁, pass .edges h₂,
    pass .ellipses h₃, pass .labels h₄, hrest⟩

/-! ### Accepted texts -/

/-- The text of a label that has been read has been stripped. -/
theorem exists_stripped {text : List Char} {ss : List (Statement R)}
    (h : (readDocument standardCodec text).result = .ok ss) {s : Statement R} (hs : s ∈ ss)
    {position : Value R} {t : List Char} (hb : s.body = .label position t) : ∃ u, t = stripMath u := by
  rw [readDocument_eq] at h
  obtain ⟨⟨⟩, -, h⟩ := bind_eq_ok.1 h
  cases h
  obtain ⟨i, line, -, hsettled⟩ := mem_settledFrom hs
  obtain ⟨s₀, hs₀, h⟩ := settled_eq_some.1 hsettled
  have hbody : s₀.body = .label position t := by
    cases h with
    | kept | taken => exact hb
  obtain ⟨ts, -, hread⟩ := bind_eq_ok.1 hs₀
  obtain ⟨k, -, -, ht⟩ := label_of_readStatement hread hbody
  exact ⟨_, ht⟩

/-- A label that a statement describes is bound to nothing, and nothing is left to be stripped off its
text. -/
theorem label_of_described {text : List Char} {ss : List (Statement R)}
    (h : (readDocument standardCodec text).result = .ok ss) {s : Statement R} (hs : s ∈ ss)
    {l : Label R} (hd : Describes standardCodec s (.label l)) (hc : (Element.label l).check = .ok ()) :
    l.binding = .none ∧ ∃ t, l.text = .text t ∧ stripMath t.toList = t.toList := by
  obtain ⟨hnone, position, u, hb, hl⟩ := hd.label
  obtain ⟨-, ⟨t, ht, htext⟩, -⟩ := Label.check_eq_ok.1 hc
  refine ⟨hnone, t, ht, ?_⟩
  obtain ⟨v, rfl⟩ := exists_stripped h hs hb
  obtain rfl : String.ofList (stripMath v) = t := Value.text.inj (hl.symm.trans ht)
  obtain ⟨-, -, -, -, -, hstripped, -⟩ := stripMath_spec v
  have hclosed := htext.closed
  rw [String.toList_ofList] at hclosed ⊢
  exact stripMath_of_isStripped hstripped hclosed

/-- An accepted text is read as a valid diagram.  Its elements are what the statements describe,
collection by collection and each in the order of the text, and their ids count from one in this order.
Its labels are bound to nothing and stripped.  Every text whose statements agree with these is accepted
and read as the same diagram. -/
theorem ofText_canonical {text : List Char} {d : Diagram R}
    (h : (Diagram.ofText standardCodec text).result = .ok d) :
    ∃ ss, (readDocument standardCodec text).result = .ok ss ∧
      d.validate = .ok () ∧
      (∀ shelf : Shelf, List.Forall₂ (Describes standardCodec)
        (ss.filter (·.body.kind = shelf.kind)) (d.shelf shelf).values) ∧
      d.entries = (List.range d.elements.length).map (fun i => (.int (1 + i), .int (1 + i))) ∧
      d.next = .int (1 + d.elements.length) ∧
      (∀ l, .label l ∈ d.labels.values →
        l.binding = .none ∧ ∃ t, l.text = .text t ∧ stripMath t.toList = t.toList) ∧
      ∀ text' ss', (readDocument standardCodec text').result = .ok ss' → Agree ss ss' →
        (Diagram.ofText standardCodec text').result = .ok d := by
  obtain ⟨ss, hread, -, hc⟩ := consistsOf_ofText h
  refine ⟨ss, hread, validate_ofText h, fun shelf => (hc.described shelf).imp fun s e he => he.1, ?_,
    hc.orderly.next_eq, fun l hl => ?_, fun text' ss' hread' hagree => ?_⟩
  · have hids := hc.numbered
    unfold NumberedFrom at hids
    calc d.entries = d.elements.map (fun e => (e.id, e.id)) := hc.orderly.entries_eq
      _ = (d.elements.map Element.id).map (fun v => (v, v)) := by rw [List.map_map]; rfl
      _ = _ := by rw [hids, List.map_map]; rfl
  · obtain ⟨s, hs, hd, hcheck⟩ := exists_of_forall₂ (hc.described .labels) hl
    exact label_of_described hread (List.mem_of_mem_filter hs) hd hcheck
  · unfold Diagram.ofText at h ⊢
    simp only [Logged.result_bind] at h ⊢
    rw [hread, ok_bind] at h
    obtain ⟨d', hd', hrest⟩ := bind_eq_ok.1 h
    rw [hread', ok_bind, ofStatements_congr hagree hd', ok_bind]
    exact hrest

/-- A label, an ellipse, an edge and a point, in the order opposite to that of their ids. -/
def backwards : List Char :=
  ("\\node at (0, 0) \x7ba\x7d;\n\\draw (0, 0) ellipse (1 and 1);\n" ++
    "\\draw (0, 0) -- (1, 0);\n\\fill (0, 0) circle (0.15);").toList

theorem ofText_canonical_backwards : ∃ d : Diagram Exact,
    (Diagram.ofText standardCodec backwards).result = .ok d ∧ d.validate = .ok () ∧
      d.entries = [(.int 1, .int 1), (.int 2, .int 2), (.int 3, .int 3), (.int 4, .int 4)] ∧
      d.next = .int 5 := by
  obtain ⟨d, hd⟩ := exists_of_isOk
    (x := (Diagram.ofText (R := Exact) standardCodec backwards).result) (by decide +kernel)
  have hlength : ((Diagram.ofText (R := Exact) standardCodec backwards).result.map fun d =>
      d.elements.length).toOption = some 4 := by decide +kernel
  rw [hd] at hlength
  have hlength : d.elements.length = 4 := Option.some.inj hlength
  obtain ⟨-, -, hvalid, -, hentries, hnext, -⟩ := ofText_canonical hd
  rw [hlength] at hentries hnext
  exact ⟨d, hd, hvalid, hentries, hnext⟩

/-! ### Refused texts -/

/-- All lines of a text can be read, and none of its statements is flawed. -/
def IsAcceptable (R : Type) [Arithmetic R] (text : List Char) : Prop :=
  ∃ ss : List (Statement R), (readDocument standardCodec text).result = .ok ss ∧
    ∀ s ∈ ss, ¬IsFlawed standardCodec s

/-- A text is read as a diagram if it is acceptable.  Otherwise it is unreadable, and nothing else goes
wrong. -/
theorem ofText_reads_or_refuses (text : List Char) :
    (IsAcceptable R text ∧ ∃ d : Diagram R, (Diagram.ofText standardCodec text).result = .ok d) ∨
      (¬IsAcceptable R text ∧ ∃ f : ReadFailure R,
        (Diagram.ofText standardCodec text).result = .error (.unreadable f)) := by
  rcases ofText_cases (R := R) text with
    ⟨ss, d, hread, -, hd, hc⟩ | ⟨i, line, f, hfirst, -, hf⟩ |
      ⟨ss, i, line, s, f, hread, hs, -, -, hflawed, -, hf⟩
  · exact .inl ⟨⟨ss, hread, fun s hs => hc.not_isFlawed hs⟩, d, hd⟩
  · refine .inr ⟨?_, f, hf⟩
    rintro ⟨ss, hread, -⟩
    have hfails := (readDocument_eq_error (c := Codec.standard)).2 ⟨i, line, hfirst⟩
    cases hfails.symm.trans hread
  · refine .inr ⟨?_, f, hf⟩
    rintro ⟨ss', hread', hsound⟩
    obtain rfl : ss = ss' := Except.ok.inj (hread.symm.trans hread')
    exact hsound s hs hflawed

theorem exists_unreadable (text : List Char)
    (h : (Diagram.ofText (R := R) standardCodec text).result.isOk = false) :
    ∃ f, (Diagram.ofText (R := R) standardCodec text).result = .error (.unreadable f) := by
  obtain ⟨e, he⟩ := exists_of_not_isOk h
  obtain ⟨f, rfl⟩ := (ends_ofText text).error he
  exact ⟨f, he⟩

/-- A message starts with a place on line number `n`. -/
def LocatedOn (n : Nat) (line : List Char) (message : String) : Prop :=
  ∃ m, 1 ≤ m ∧ m ≤ line.length ∧
    ∃ rest, message = "[line " ++ toString n ++ ", col " ++ toString m ++ "]" ++ rest

theorem Place.tag_of_isOn {n : Nat} {line : List Char} {p : Place R} (h : p.IsOn n line) :
    ∃ m, 1 ≤ m ∧ m ≤ line.length ∧
      p.tag = "[line " ++ toString n ++ ", col " ++ toString m ++ "]" ++ " " := by
  obtain ⟨m, rfl, hpos, hle⟩ := h
  refine ⟨m, hpos, hle, ?_⟩
  show "[line " ++ toString n ++ ", col " ++ toString m ++ ("]" ++ " ") = _
  exact String.append_assoc.symm

/-- A failure with a place starts with it. -/
theorem ReadFailure.message_of_place {f : ReadFailure R} {p : Place R} (h : f.place = some p) :
    ∃ rest, f.message = p.tag ++ rest := by
  obtain ⟨place, problem, excerpt⟩ := f
  cases h
  cases excerpt with
  | none => exact ⟨_, rfl⟩
  | some line => exact ⟨_, String.append_assoc⟩

theorem ReadFailure.locatedOn {n : Nat} {line : List Char} {f : ReadFailure R} {p : Place R}
    (hf : f.place = some p) (hp : p.IsOn n line) : LocatedOn n line f.message := by
  obtain ⟨m, hpos, hle, htag⟩ := Place.tag_of_isOn hp
  obtain ⟨rest, hmessage⟩ := ReadFailure.message_of_place hf
  exact ⟨m, hpos, hle, " " ++ rest, by rw [hmessage, htag, String.append_assoc]⟩

/-- A failure at the end of a line says what is missing there, and nothing else. -/
theorem ReadFailure.message_of_isAt {n : Nat} {line : List Char} {f : ReadFailure R}
    (h : f.IsAt (Place.IsOn n line)) : LocatedOn n line f.message ∨
      ∃ k : TokenKind, f.message = "Unexpected end of line: expected " ++ k.name := by
  unfold ReadFailure.IsAt at h
  rcases hp : f.place with _ | p
  · rw [hp] at h
    obtain ⟨k, hk⟩ := h
    refine .inr ⟨k, ?_⟩
    unfold ReadFailure.message
    rw [hp, hk]
    rfl
  · rw [hp] at h
    exact .inl (ReadFailure.locatedOn hp h)

/-- What is said of a line that ends too early is no place. -/
theorem not_locatedOn_unexpectedEnd (k : TokenKind) (n : Nat) (line : List Char) :
    ¬LocatedOn n line ("Unexpected end of line: expected " ++ k.name) := by
  rintro ⟨m, -, -, rest, hrest⟩
  -- The first characters differ already.
  have hhead := congrArg (fun t : String => t.toList.head?) hrest
  simp [String.toList_append] at hhead

/-- A refused text is at fault on one of its lines.  Either this is the first line that cannot be read,
and the message starts with a place on it, unless the line ends too early.  Or all lines can be read,
but a statement on this one is flawed, and the message starts with its place. -/
theorem ofText_refused {text : List Char} {f : ReadFailure R}
    (h : (Diagram.ofText standardCodec text).result = .error (.unreadable f)) :
    ∃ i line, (lines text)[i]? = some line ∧
      ((IsFirstFault standardCodec 1 (lines text) i line (.unreadable f) ∧
          (LocatedOn (1 + i) line f.message ∨
            ∃ k : TokenKind, f.message = "Unexpected end of line: expected " ++ k.name)) ∨
        ∃ (ss : List (Statement R)) (s : Statement R),
          (readDocument standardCodec text).result = .ok ss ∧ s ∈ ss ∧ s.place.IsOn (1 + i) line ∧
          IsFlawed standardCodec s ∧ LocatedOn (1 + i) line f.message) := by
  rcases ofText_cases (R := R) text with
    ⟨ss, d, -, -, hd, -⟩ | ⟨i, line, g, hfirst, hat, hg⟩ |
      ⟨ss, i, line, s, g, hread, hs, hline, hplace, hflawed, hgp, hg⟩
  · cases h.symm.trans hd
  · obtain rfl : f = g := Fault.unreadable.inj (Except.error.inj (h.symm.trans hg))
    exact ⟨i, line, hfirst.here, .inl ⟨hfirst, ReadFailure.message_of_isAt hat⟩⟩
  · obtain rfl : f = g := Fault.unreadable.inj (Except.error.inj (h.symm.trans hg))
    exact ⟨i, line, hline, .inr ⟨ss, s, hread, hs, hplace, hflawed,
      ReadFailure.locatedOn hgp hplace⟩⟩

/-- A text whose second line is no statement. -/
def misshapen : List Char := "\\begin\x7btikzpicture\x7d\n  \\fill (0, 0) square (1);".toList

theorem ofText_refused_misshapen : ∃ f : ReadFailure Exact,
    (Diagram.ofText standardCodec misshapen).result = .error (.unreadable f) ∧
      ∃ i line, (lines misshapen)[i]? = some line ∧
        ((IsFirstFault standardCodec 1 (lines misshapen) i line (.unreadable f) ∧
            (LocatedOn (1 + i) line f.message ∨
              ∃ k : TokenKind, f.message = "Unexpected end of line: expected " ++ k.name)) ∨
          ∃ (ss : List (Statement Exact)) (s : Statement Exact),
            (readDocument standardCodec misshapen).result = .ok ss ∧ s ∈ ss ∧
            s.place.IsOn (1 + i) line ∧ IsFlawed standardCodec s ∧
            LocatedOn (1 + i) line f.message) := by
  obtain ⟨f, hf⟩ := exists_unreadable (R := Exact) misshapen (by decide +kernel)
  exact ⟨f, hf, ofText_refused hf⟩

/-- A line that ends too early is refused without a place. -/
theorem unfinished_line_unplaced : ∃ f : ReadFailure Exact,
    (Diagram.ofText standardCodec "\\draw".toList).result = .error (.unreadable f) ∧
      f.message = "Unexpected end of line: expected LPAREN" ∧
      ∀ n line, ¬LocatedOn n line f.message := by
  obtain ⟨f, hf⟩ := exists_unreadable (R := Exact) "\\draw".toList (by decide +kernel)
  have hmessage : (match (Diagram.ofText (R := Exact) standardCodec "\\draw".toList).result with
      | .ok _ => none
      | .error e => e.message?) = some "Unexpected end of line: expected LPAREN" := by decide +kernel
  rw [hf] at hmessage
  have hmessage : f.message = "Unexpected end of line: expected LPAREN" := Option.some.inj hmessage
  refine ⟨f, hf, hmessage, ?_⟩
  rw [hmessage]
  exact not_locatedOn_unexpectedEnd .leftParen

end FeynmanTikz
