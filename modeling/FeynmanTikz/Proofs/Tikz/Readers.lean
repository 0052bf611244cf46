/-
Reading statements from tokens.

`Reads ps m P qs` says of a reader what a Hoare triple says of a program: on tokens that look like
`ps` it succeeds with a result that satisfies `P`, and leaves tokens that look like `qs`.

* `Reads.bind`, `Reads.expect`, `Reads.accept_some`, `Reads.accept_none`: the rules,
* `reads_coordinate` and `reads_length`: numbers,
* `reads_point`, `reads_straight`, `reads_curve`, `reads_ellipse`, `reads_label`,
  `reads_environment`: what follows a command,
* `readStatement_of_reads`: a whole line,
* `parts_of_readStatement`: where the parts of a statement come from,
* `label_of_readStatement`: the text of a label that has been read comes from a group,
* `comment_of_readStatement`: a comment comes from a token.
-/
import FeynmanTikz.Proofs.Tikz.Measure
import FeynmanTikz.Proofs.Tikz.Tokens

namespace FeynmanTikz

open TokenReader

variable {R : Type}

/-- On tokens that look like `ps`, the reader succeeds with a result that satisfies `P` and leaves
tokens that look like `qs`. -/
def Reads {α : Type} (ps : List (TokenKind × List Char)) (m : TokenReader R α) (P : α → Prop)
    (qs : List (TokenKind × List Char)) : Prop :=
  ∀ ts : List (Token R), ts.map Token.seen = ps.map seenAs →
    ∃ a us, m.run ts = .ok (a, us) ∧ us.map Token.seen = qs.map seenAs ∧ P a

namespace Reads

variable {α β : Type} {ps qs rs : List (TokenKind × List Char)} {P : α → Prop} {Q : β → Prop}

theorem pure {a : α} (h : P a) : Reads ps (pure a : TokenReader R α) P ps :=
  fun ts hts => ⟨a, ts, rfl, hts, h⟩

theorem bind {m : TokenReader R α} {f : α → TokenReader R β} (hm : Reads ps m P qs)
    (hf : ∀ a, P a → Reads qs (f a) Q rs) : Reads ps (m >>= f) Q rs := by
  intro ts hts
  obtain ⟨a, us, hr, hus, ha⟩ := hm ts hts
  obtain ⟨b, vs, hr', hvs, hb⟩ := hf a ha us hus
  refine ⟨b, vs, ?_, hvs, hb⟩
  rw [StateT.run_bind, hr]
  exact hr'

theorem liftExcept {r : Except (Fault R) α} {a : α} (hr : r = .ok a) (h : P a) :
    Reads ps (liftM r : TokenReader R α) P ps := by
  intro ts hts
  subst hr
  exact ⟨a, ts, rfl, hts, h⟩

theorem cons_of_map {ts : List (Token R)} {p : TokenKind × List Char}
    (h : ts.map Token.seen = (p :: ps).map seenAs) :
    ∃ t us, ts = t :: us ∧ t.kind = p.1 ∧ t.text = .text (String.ofList p.2) ∧
      us.map Token.seen = ps.map seenAs := by
  obtain ⟨t, us, rfl, ht, hus⟩ := List.map_eq_cons_iff.1 h
  exact ⟨t, us, rfl, congrArg Prod.fst ht, congrArg Prod.snd ht, hus⟩

theorem expect (k : TokenKind) (t : List Char) :
    Reads (R := R) ((k, t) :: ps) (expect k) (fun a => a.text = .text (String.ofList t)) ps := by
  intro ts hts
  obtain ⟨a, us, rfl, hk, ht, hus⟩ := cons_of_map hts
  refine ⟨a, us, ?_, hus, ht⟩
  show (if a.kind = k then (do set us; return a : TokenReader R (Token R)) else
    failAt a.place (.unexpectedToken k a)).run (a :: us) = _
  rw [if_pos hk]
  rfl

theorem accept_some (k : TokenKind) (t : List Char) :
    Reads (R := R) ((k, t) :: ps) (accept? k)
      (fun o => ∃ a, o = some a ∧ a.text = .text (String.ofList t)) ps := by
  intro ts hts
  obtain ⟨a, us, rfl, hk, ht, hus⟩ := cons_of_map hts
  refine ⟨some a, us, ?_, hus, a, rfl, ht⟩
  show (if a.kind = k then (do set us; return some a : TokenReader R (Option (Token R))) else
    return none).run (a :: us) = _
  rw [if_pos hk]
  rfl

/-- Nothing is taken off if the next token is of another kind. -/
theorem accept_none {k : TokenKind} (h : ∀ p, ps.head? = some p → p.1 ≠ k) :
    Reads (R := R) ps (accept? k) (fun o => o = none) ps := by
  intro ts hts
  refine ⟨none, ts, ?_, hts, rfl⟩
  cases ps with
  | nil =>
    obtain rfl : ts = [] := List.map_eq_nil_iff.1 hts
    rfl
  | cons p ps =>
    obtain ⟨a, us, rfl, hk, -, -⟩ := cons_of_map hts
    show (if a.kind = k then (do set us; return some a : TokenReader R (Option (Token R))) else
      return none).run (a :: us) = _
    rw [if_neg (by rw [hk]; exact h p rfl)]
    rfl

theorem expectWord (word : String) :
    Reads (R := R) ((.word, word.toList) :: ps) (expectWord word) (fun _ => True) ps := by
  refine (expect .word word.toList).bind fun a ha => ?_
  rw [ha, Value.isWord, String.ofList_toList, if_pos (by simp)]
  exact pure trivial

theorem get : Reads (R := R) ps get (fun ts => ts.map Token.seen = ps.map seenAs) ps :=
  fun ts hts => ⟨ts, ts, rfl, hts, hts⟩

theorem set {us : List (Token R)} (hus : us.map Token.seen = qs.map seenAs) :
    Reads ps (set us : TokenReader R PUnit) (fun _ => True) qs :=
  fun _ _ => ⟨⟨⟩, us, rfl, hus, trivial⟩

end Reads

/-! ### Numbers -/

variable [Arithmetic R]

namespace Measure

/-- A numeral from which a valid number is read back. -/
def Sound (R : Type) [Arithmetic R] (m : Measure) (h : Hundredths) : Prop :=
  m.Accepts R h ∧ m.Admits (.real (m.value h : R))

theorem Sound.finite {m : Measure} {h : Hundredths} (hs : m.Sound R h) :
    isFiniteNumber (.real (m.value h : R)) = .ok true := by
  cases m with
  | abscissa | ordinate => exact hs.2.finite
  | pointRadius | ellipseRadius | lineWidth => exact hs.2.toIsLength.finite

end Measure

/-- The tokens of a coordinate pair. -/
def coordinateTokens (x y : Hundredths) : List (TokenKind × List Char) :=
  [(.leftParen, ['(']), (.number, x.text), (.comma, [',']), (.number, y.text), (.rightParen, [')'])]

/-- The position that is read from a coordinate pair. -/
def positionOf (x y : Hundredths) : Value R :=
  .tuple [.real (Measure.abscissa.value x), .real (Measure.ordinate.value y)]

section

variable {ps : List (TokenKind × List Char)}

theorem reads_number {t : Token R} {h : Hundredths} (ht : t.text = .text h.string)
    (hf : Arithmetic.isFinite (h.number : R) = true) :
    Reads ps (numberOf t) (fun v => v = .real h.number) ps := by
  intro ts hts
  exact ⟨_, ts, by rw [Hundredths.numberOf_run ht, if_pos hf], hts, rfl⟩

theorem isFiniteValue_real {x : R} (h : isFiniteNumber (.real x) = .ok true) :
    isFiniteValue (.real x) = .ok true := h

theorem reads_coordinate {x y : Hundredths} (hx : Measure.abscissa.Sound R x)
    (hy : Measure.ordinate.Sound R y) :
    Reads (coordinateTokens x y ++ ps) (readCoordinate (R := R) standardCodec)
      (fun p => p = positionOf x y) ps := by
  refine (Reads.expect .leftParen ['(']).bind fun opening _ => ?_
  refine (Reads.expect .number x.text).bind fun t ht => ?_
  refine (reads_number ht hx.1).bind fun _ => ?_
  rintro rfl
  refine (Reads.expect .comma [',']).bind fun _ _ => ?_
  refine (Reads.expect .number y.text).bind fun t ht => ?_
  refine (reads_number ht hy.1).bind fun _ => ?_
  rintro rfl
  refine (Reads.expect .rightParen [')']).bind fun _ _ => ?_
  refine (Reads.liftExcept (a := positionOf x y) rfl rfl).bind fun _ => ?_
  rintro rfl
  refine (Reads.liftExcept (P := fun p =>
    p = (.real (Measure.abscissa.value x), .real (Measure.ordinate.value y))) rfl rfl).bind fun _ => ?_
  rintro rfl
  refine (Reads.liftExcept (isFiniteValue_real hx.finite) rfl).bind fun _ => ?_
  rintro rfl
  refine (Reads.liftExcept (isFiniteValue_real hy.finite) rfl).bind fun _ => ?_
  rintro rfl
  exact Reads.pure rfl

theorem reads_length {m : Measure} {h : Hundredths} (hm : m = .pointRadius ∨ m = .ellipseRadius)
    (hs : m.Sound R h) : Reads ((.number, h.text) :: ps) (readLength (R := R) standardCodec)
      (fun v => v = .real (m.value h)) ps := by
  have hacc : Arithmetic.isFinite (h.number : R) = true := by
    rcases hm with rfl | rfl <;> exact hs.1
  have hval : (m.value h : R) = h.number * Measure.scale := by
    rcases hm with rfl | rfl <;> rfl
  have hfin := hs.finite
  rw [hval] at hfin ⊢
  refine (Reads.expect .number h.text).bind fun t ht => ?_
  refine (reads_number ht hacc).bind fun _ => ?_
  rintro rfl
  refine (Reads.liftExcept (Codec.settings_given _) rfl).bind fun _ => ?_
  rintro rfl
  refine (Reads.liftExcept (P := fun v => v = .real (h.number * Measure.scale)) rfl rfl).bind
    fun _ => ?_
  rintro rfl
  refine (Reads.liftExcept (isFiniteValue_real hfin) rfl).bind fun _ => ?_
  rintro rfl
  exact Reads.pure rfl

/-! ### What follows a command -/

/-- The tokens of a word. -/
def wordToken (word : String) : TokenKind × List Char := (.word, word.toList)

theorem reads_point {x y r : Hundredths} (hx : Measure.abscissa.Sound R x)
    (hy : Measure.ordinate.Sound R y) (hr : Measure.pointRadius.Sound R r) :
    Reads (coordinateTokens x y ++ (wordToken "circle" :: (.leftParen, ['(']) :: (.number, r.text) ::
        (.rightParen, [')']) :: ps)) (readPoint (R := R) standardCodec)
      (fun b => b = .point (positionOf x y) (.real (Measure.pointRadius.value r))) ps := by
  refine (reads_coordinate hx hy).bind fun _ => ?_
  rintro rfl
  refine (Reads.expectWord "circle").bind fun _ _ => ?_
  refine (Reads.expect .leftParen ['(']).bind fun _ _ => ?_
  refine (reads_length (.inl rfl) hr).bind fun _ => ?_
  rintro rfl
  refine (Reads.expect .rightParen [')']).bind fun _ _ => ?_
  exact Reads.pure rfl

/-- Option list and first position of a drawn path. -/
theorem reads_draw {o : List Char} {x y : Hundredths} {P : StatementBody R → Prop}
    {qs : List (TokenKind × List Char)} (place : Place R) (hx : Measure.abscissa.Sound R x)
    (hy : Measure.ordinate.Sound R y)
    (h : Reads ps (do
      if (← accept? .dashes).isSome then
        let finish ← readCoordinate standardCodec
        return .edge (positionOf x y) finish none (.text (String.ofList o))
      else if (← accept? .dots).isSome then
        expectWord "controls"
        let control ← readCoordinate standardCodec
        let _ ← expect .dots
        let finish ← readCoordinate standardCodec
        return .edge (positionOf x y) finish (some control) (.text (String.ofList o))
      else
        match ← get with
        | [] => failAt place .unterminatedDraw
        | t :: rest =>
          if t.kind = .word ∧ t.text.isWord "ellipse" then
            set rest
            readEllipse standardCodec (positionOf x y) (.text (String.ofList o))
          else failAt t.place .noPath) P qs) :
    Reads ((.attributes, o) :: (coordinateTokens x y ++ ps)) (readDraw (R := R) standardCodec place)
      P qs := by
  refine (Reads.accept_some .attributes o).bind fun _ => ?_
  rintro ⟨t, rfl, ht⟩
  dsimp only
  rw [ht]
  refine (reads_coordinate hx hy).bind fun _ => ?_
  rintro rfl
  exact h

theorem reads_straight {o : List Char} {x y u v : Hundredths} (place : Place R)
    (hx : Measure.abscissa.Sound R x) (hy : Measure.ordinate.Sound R y)
    (hu : Measure.abscissa.Sound R u) (hv : Measure.ordinate.Sound R v) :
    Reads ((.attributes, o) :: (coordinateTokens x y ++
        ((.dashes, ['-', '-']) :: (coordinateTokens u v ++ ps)))) (readDraw standardCodec place)
      (fun b => b = .edge (positionOf x y) (positionOf u v) none (.text (String.ofList o)))
      ps := by
  refine reads_draw place hx hy ?_
  refine (Reads.accept_some .dashes ['-', '-']).bind fun _ => ?_
  rintro ⟨t, rfl, -⟩
  refine (reads_coordinate hu hv).bind fun _ => ?_
  rintro rfl
  exact Reads.pure rfl

theorem reads_curve {o : List Char} {x y a b u v : Hundredths} (place : Place R)
    (hx : Measure.abscissa.Sound R x) (hy : Measure.ordinate.Sound R y)
    (ha : Measure.abscissa.Sound R a) (hb : Measure.ordinate.Sound R b)
    (hu : Measure.abscissa.Sound R u) (hv : Measure.ordinate.Sound R v) :
    Reads ((.attributes, o) :: (coordinateTokens x y ++ ((.dots, ['.', '.']) ::
        wordToken "controls" :: (coordinateTokens a b ++ ((.dots, ['.', '.']) ::
          (coordinateTokens u v ++ ps)))))) (readDraw standardCodec place)
      (fun s => s = .edge (positionOf x y) (positionOf u v) (some (positionOf a b))
        (.text (String.ofList o))) ps := by
  refine reads_draw place hx hy ?_
  refine (Reads.accept_none (by rintro p ⟨⟩; decide)).bind fun _ => ?_
  rintro rfl
  refine (Reads.accept_some .dots ['.', '.']).bind fun _ => ?_
  rintro ⟨t, rfl, -⟩
  refine (Reads.expectWord "controls").bind fun _ _ => ?_
  refine (reads_coordinate ha hb).bind fun _ => ?_
  rintro rfl
  refine (Reads.expect .dots ['.', '.']).bind fun _ _ => ?_
  refine (reads_coordinate hu hv).bind fun _ => ?_
  rintro rfl
  exact Reads.pure rfl

theorem reads_ellipse {o : List Char} {x y rx ry : Hundredths} (place : Place R)
    (hx : Measure.abscissa.Sound R x) (hy : Measure.ordinate.Sound R y)
    (hrx : Measure.ellipseRadius.Sound R rx) (hry : Measure.ellipseRadius.Sound R ry) :
    Reads ((.attributes, o) :: (coordinateTokens x y ++ (wordToken "ellipse" ::
        (.leftParen, ['(']) :: (.number, rx.text) :: wordToken "and" :: (.number, ry.text) ::
          (.rightParen, [')']) :: ps))) (readDraw standardCodec place)
      (fun b => b = .ellipse (positionOf x y) (.real (Measure.ellipseRadius.value rx))
        (.real (Measure.ellipseRadius.value ry)) (.text (String.ofList o))) ps := by
  refine reads_draw place hx hy ?_
  refine (Reads.accept_none (by rintro p ⟨⟩; decide)).bind fun _ => ?_
  rintro rfl
  refine (Reads.accept_none (by rintro p ⟨⟩; decide)).bind fun _ => ?_
  rintro rfl
  refine Reads.get.bind fun ts hts => ?_
  obtain ⟨t, us, rfl, hk, ht, hus⟩ := Reads.cons_of_map hts
  dsimp only
  rw [if_pos ⟨hk, by rw [ht]; rfl⟩]
  refine (Reads.set hus).bind fun _ _ => ?_
  refine (Reads.expect .leftParen ['(']).bind fun _ _ => ?_
  refine (reads_length (.inr rfl) hrx).bind fun _ => ?_
  rintro rfl
  refine (Reads.expectWord "and").bind fun _ _ => ?_
  refine (reads_length (.inr rfl) hry).bind fun _ => ?_
  rintro rfl
  refine (Reads.expect .rightParen [')']).bind fun _ _ => ?_
  exact Reads.pure rfl

theorem reads_label (content : List Char) (ps : List (TokenKind × List Char)) {x y : Hundredths}
    (hx : Measure.abscissa.Sound R x)
    (hy : Measure.ordinate.Sound R y) :
    Reads (wordToken "at" :: (coordinateTokens x y ++ ((.group, content) :: ps)))
      (readLabel (R := R) standardCodec)
      (fun b => b = .label (positionOf x y) (stripMath content)) ps := by
  refine (Reads.expectWord "at").bind fun _ _ => ?_
  refine (reads_coordinate hx hy).bind fun _ => ?_
  rintro rfl
  refine (Reads.expect .group content).bind fun t ht => ?_
  have hc : textOf t.text = content := by
    rw [ht]
    exact String.toList_ofList
  rw [hc]
  exact Reads.pure rfl

omit [Arithmetic R] in
theorem reads_environment {body : StatementBody R} (hb : body = .beginPicture ∨ body = .endPicture) :
    Reads [(.group, pictureEnvironment.toList)] (readEnvironment body) (fun b => b = body) [] := by
  refine (Reads.expect .group pictureEnvironment.toList).bind fun t ht => ?_
  have hname : t.text.characters = .ok pictureEnvironment.toList := by
    rw [ht, String.ofList_toList]
    rfl
  refine (Reads.liftExcept hname rfl).bind fun _ => ?_
  rintro rfl
  rw [if_neg (by decide)]
  rcases hb with rfl | rfl
  · exact (Reads.accept_none (by rintro p ⟨⟩)).bind fun _ _ => Reads.pure rfl
  · exact Reads.pure rfl

end

/-! ### Whole lines -/

/-- The tokens of a comment, if there is one. -/
def commentTokens : Option (List Char) → List (TokenKind × List Char)
  | none => []
  | some t => [(.comment, t)]

/-- The tokens after a body: a semicolon, unless the statement is part of the picture around the
others, and a comment. -/
def closingTokens (body : StatementBody R) (comment : Option (List Char)) :
    List (TokenKind × List Char) :=
  if body.isWrapper then commentTokens comment else (.semicolon, [';']) :: commentTokens comment

/-- The comment of a statement. -/
def commentValue : Option (List Char) → Value R
  | none => .text ""
  | some t => .text (String.ofList t)

omit [Arithmetic R] in
/-- After a semicolon a comment may follow, and nothing else. -/
theorem reads_comment (place : Place R) (body : StatementBody R) (comment : Option (List Char)) :
    Reads (commentTokens comment) (do
      let last ← accept? .comment
      match ← get with
      | [] => return ⟨place, body, match last with
        | some t => t.text
        | none => .text ""⟩
      | t :: _ => failAt t.place (.trailingToken t.text))
      (fun s : Statement R => s.body = body ∧ s.comment = commentValue comment) [] := by
  cases comment with
  | none =>
    refine (Reads.accept_none (by rintro p ⟨⟩)).bind fun _ => ?_
    rintro rfl
    refine Reads.get.bind fun ts hts => ?_
    obtain rfl : ts = [] := List.map_eq_nil_iff.1 hts
    exact Reads.pure ⟨rfl, rfl⟩
  | some t =>
    refine (Reads.accept_some .comment t).bind fun _ => ?_
    rintro ⟨k, rfl, hk⟩
    refine Reads.get.bind fun ts hts => ?_
    obtain rfl : ts = [] := List.map_eq_nil_iff.1 hts
    exact Reads.pure ⟨rfl, hk⟩

/-- A line is read as a statement. -/
theorem readStatement_of_reads {name : List Char} {body : StatementBody R}
    {comment : Option (List Char)} {ps : List (TokenKind × List Char)}
    (hb : ∀ command : Token R, command.text = .text (String.ofList name) →
      Reads ps (readBody standardCodec command) (fun b => b = body) (closingTokens body comment))
    {ts : List (Token R)} (hts : ts.map Token.seen = ((.command, name) :: ps).map seenAs) :
    ∃ place, readStatement standardCodec ts = .ok (some ⟨place, body, commentValue comment⟩) := by
  have hw : Reads ((.command, name) :: ps) (readWhole (R := R) standardCodec)
      (fun s => s.body = body ∧ s.comment = commentValue comment) [] := by
    refine (Reads.expect .command name).bind fun command hc => ?_
    refine (hb command hc).bind fun b hbody => ?_
    subst hbody
    unfold closingTokens
    dsimp only
    -- Only the two lines around a picture have no semicolon.
    by_cases hwr : b.isWrapper = true
    · rw [if_pos hwr, if_neg (by rw [hwr]; decide)]
      exact reads_comment command.place b comment
    · rw [if_neg hwr, if_pos (by simpa using hwr)]
      exact (Reads.expect .semicolon [';']).bind fun _ _ => reads_comment command.place b comment
  obtain ⟨s, us, hr, -, hs, hcm⟩ := hw ts hts
  obtain ⟨t, us', rfl, hk, -, -⟩ := Reads.cons_of_map hts
  obtain ⟨place, b, c⟩ := s
  obtain rfl : b = body := hs
  obtain rfl : c = commentValue comment := hcm
  refine ⟨place, ?_⟩
  unfold readStatement
  dsimp only
  rw [if_neg (by rw [hk]; simp), StateT.run'_eq, hr]
  rfl

/-! ### Where the parts of a statement come from -/

section

variable {α β : Type}

/-- Whatever the reader leaves has been there before. -/
def Drops (m : TokenReader R α) : Prop :=
  ∀ ts a us, m.run ts = .ok (a, us) → ∀ t ∈ us, t ∈ ts

/-- Whatever the reader returns satisfies `P`. -/
def Returns (m : TokenReader R α) (P : α → Prop) : Prop :=
  ∀ ts a us, m.run ts = .ok (a, us) → P a

omit [Arithmetic R] in
theorem run_bind_eq_ok {m : TokenReader R α} {f : α → TokenReader R β} {ts us : List (Token R)}
    {b : β} : (m >>= f).run ts = .ok (b, us) ↔
      ∃ a vs, m.run ts = .ok (a, vs) ∧ (f a).run vs = .ok (b, us) := by
  rw [StateT.run_bind, bind_eq_ok]
  constructor
  · rintro ⟨⟨a, vs⟩, h1, h2⟩
    exact ⟨a, vs, h1, h2⟩
  · rintro ⟨a, vs, h1, h2⟩
    exact ⟨⟨a, vs⟩, h1, h2⟩

omit [Arithmetic R] in
theorem Drops.bind {m : TokenReader R α} {f : α → TokenReader R β} (hm : Drops m)
    (hf : ∀ a, Drops (f a)) : Drops (m >>= f) := by
  intro ts b us h t ht
  obtain ⟨a, vs, h1, h2⟩ := run_bind_eq_ok.1 h
  exact hm ts a vs h1 t (hf a vs b us h2 t ht)

omit [Arithmetic R] in
theorem Drops.pure (a : α) : Drops (pure a : TokenReader R α) := by
  rintro ts _ us ⟨⟩ t ht
  exact ht

omit [Arithmetic R] in
theorem Drops.failAt (p : Place R) (problem : ReadProblem R) :
    Drops (failAt p problem : TokenReader R α) := by
  rintro ts a us ⟨⟩

omit [Arithmetic R] in
theorem Drops.liftExcept (r : Except (Fault R) α) : Drops (liftM r : TokenReader R α) := by
  intro ts a us h t ht
  cases r with
  | ok _ =>
    cases h
    exact ht
  | error _ => cases h

omit [Arithmetic R] in
/-- What is expected and found has been there. -/
theorem expect_run {k : TokenKind} {ts us : List (Token R)} {t : Token R}
    (h : (expect k).run ts = .ok (t, us)) : ts = t :: us ∧ t.kind = k := by
  cases ts with
  | nil => cases h
  | cons u ts =>
    have h : (if u.kind = k then (do set ts; return u : TokenReader R (Token R)) else
      TokenReader.failAt u.place (.unexpectedToken k u)).run (u :: ts) = .ok (t, us) := h
    split at h
    · cases h
      exact ⟨rfl, ‹_›⟩
    · cases h

omit [Arithmetic R] in
theorem Drops.expect (k : TokenKind) : Drops (R := R) (expect k) := by
  intro ts a us h t ht
  rw [(expect_run h).1]
  exact List.mem_cons_of_mem _ ht

omit [Arithmetic R] in
theorem Drops.expectWord (word : String) : Drops (R := R) (expectWord word) := by
  refine (Drops.expect .word).bind fun t => ?_
  split
  · exact Drops.pure _
  · exact Drops.failAt _ _

omit [Arithmetic R] in
/-- What is accepted has been there. -/
theorem mem_of_accept {k : TokenKind} {ts us : List (Token R)} {t : Token R}
    (h : (accept? k).run ts = .ok (some t, us)) : t ∈ ts := by
  cases ts with
  | nil => cases h
  | cons u ts =>
    have h : (if u.kind = k then (do set ts; return some u : TokenReader R (Option (Token R))) else
      return none).run (u :: ts) = .ok (some t, us) := h
    split at h
    · cases h
      exact List.mem_cons_self
    · cases h

omit [Arithmetic R] in
theorem Drops.accept? (k : TokenKind) : Drops (R := R) (accept? k) := by
  intro ts o us h t ht
  cases ts with
  | nil =>
    cases h
    exact ht
  | cons u ts =>
    have h : (if u.kind = k then (do set ts; return some u : TokenReader R (Option (Token R))) else
      return none).run (u :: ts) = .ok (o, us) := h
    split at h
    · cases h
      exact List.mem_cons_of_mem _ ht
    · cases h
      exact ht

theorem drops_number (t : Token R) : Drops (numberOf t) := by
  refine (Drops.liftExcept _).bind fun x => ?_
  split
  · exact Drops.pure _
  · exact Drops.failAt _ _

theorem drops_coordinate (codec : Given R (Codec R)) : Drops (readCoordinate codec) := by
  refine (Drops.expect _).bind fun opening => (Drops.expect _).bind fun t =>
    (drops_number t).bind fun x => (Drops.expect _).bind fun _ => (Drops.expect _).bind fun u =>
    (drops_number u).bind fun y => (Drops.expect _).bind fun _ => (Drops.liftExcept _).bind fun p =>
    (Drops.liftExcept _).bind fun q => ?_
  dsimp only
  refine (Drops.liftExcept _).bind fun _ => ?_
  split
  · refine (Drops.liftExcept _).bind fun _ => ?_
    split
    · exact Drops.pure _
    · exact Drops.failAt _ _
  · exact Drops.failAt _ _

theorem drops_length (codec : Given R (Codec R)) : Drops (readLength codec) := by
  refine (Drops.expect _).bind fun t => (drops_number t).bind fun x =>
    (Drops.liftExcept _).bind fun settings => (Drops.liftExcept _).bind fun length =>
    (Drops.liftExcept _).bind fun _ => ?_
  split
  · exact Drops.pure _
  · exact Drops.failAt _ _

theorem drops_point (codec : Given R (Codec R)) : Drops (readPoint codec) :=
  (drops_coordinate codec).bind fun _ => (Drops.expectWord _).bind fun _ =>
    (Drops.expect _).bind fun _ => (drops_length codec).bind fun _ => (Drops.expect _).bind fun _ =>
    Drops.pure _

theorem drops_ellipse (codec : Given R (Codec R)) (center options : Value R) :
    Drops (readEllipse codec center options) :=
  (Drops.expect _).bind fun _ => (drops_length codec).bind fun _ => (Drops.expectWord _).bind fun _ =>
    (drops_length codec).bind fun _ => (Drops.expect _).bind fun _ => Drops.pure _

theorem drops_draw (codec : Given R (Codec R)) (place : Place R) : Drops (readDraw codec place) := by
  refine (Drops.accept? _).bind fun options => (drops_coordinate codec).bind fun start =>
    (Drops.accept? _).bind fun dashes => ?_
  split
  · exact (drops_coordinate codec).bind fun _ => Drops.pure _
  refine (Drops.accept? _).bind fun dots => ?_
  split
  · exact (Drops.expectWord _).bind fun _ => (drops_coordinate codec).bind fun _ =>
      (Drops.expect _).bind fun _ => (drops_coordinate codec).bind fun _ => Drops.pure _
  -- The word is taken off by hand here, so what is left is looked at itself.
  intro ts body us h t ht
  cases ts with
  | nil => cases h
  | cons u rest =>
    obtain ⟨_, _, ⟨⟩, h⟩ := run_bind_eq_ok.1 h
    dsimp only at h
    split at h
    · obtain ⟨_, _, ⟨⟩, h⟩ := run_bind_eq_ok.1 h
      exact List.mem_cons_of_mem _ (drops_ellipse codec start _ _ _ _ h t ht)
    · cases h

theorem drops_label (codec : Given R (Codec R)) : Drops (readLabel codec) :=
  (Drops.expectWord _).bind fun _ => (drops_coordinate codec).bind fun _ =>
    (Drops.expect _).bind fun _ => Drops.pure _

omit [Arithmetic R] in
theorem drops_environment (body : StatementBody R) : Drops (readEnvironment body) := by
  refine (Drops.expect _).bind fun group => (Drops.liftExcept _).bind fun name => ?_
  split
  · exact Drops.failAt _ _
  · split
    · exact (Drops.accept? _).bind fun _ => Drops.pure _
    · exact Drops.pure _

theorem drops_body (codec : Given R (Codec R)) (command : Token R) : Drops (readBody codec command) := by
  unfold readBody
  split
  · exact drops_point codec
  · exact drops_draw codec _
  · exact drops_label codec
  · exact drops_environment _
  · exact drops_environment _
  · exact Drops.failAt _ _

omit [Arithmetic R] in
theorem Returns.bind {m : TokenReader R α} {f : α → TokenReader R β} {P : β → Prop}
    (hf : ∀ a, Returns (f a) P) : Returns (m >>= f) P := by
  intro ts b us h
  obtain ⟨a, vs, -, h2⟩ := run_bind_eq_ok.1 h
  exact hf a vs b us h2

omit [Arithmetic R] in
theorem Returns.pure {a : α} {P : α → Prop} (h : P a) : Returns (pure a : TokenReader R α) P := by
  rintro ts _ us ⟨⟩
  exact h

omit [Arithmetic R] in
theorem Returns.failAt (p : Place R) (problem : ReadProblem R) {P : α → Prop} :
    Returns (failAt p problem : TokenReader R α) P := by
  rintro ts a us ⟨⟩

end

omit [Arithmetic R] in
/-- After the body of a statement comes its comment, if it has one, and nothing else. -/
theorem closing_run {place : Place R} {body : StatementBody R} {ts us : List (Token R)}
    {s : Statement R} (h : (do
      let last ← accept? .comment
      match ← get with
      | [] => return ⟨place, body, match last with
        | some t => t.text
        | none => .text ""⟩
      | t :: _ => failAt t.place (.trailingToken t.text) : TokenReader R (Statement R)).run ts =
        .ok (s, us)) :
    s.place = place ∧ s.body = body ∧ (s.comment = .text "" ∨ ∃ k ∈ ts, s.comment = k.text) := by
  obtain ⟨last, vs, hl, h⟩ := run_bind_eq_ok.1 h
  obtain ⟨_, _, ⟨⟩, h⟩ := run_bind_eq_ok.1 h
  split at h
  · cases h
    refine ⟨rfl, rfl, ?_⟩
    cases last with
    | none => exact .inl rfl
    | some k => exact .inr ⟨k, mem_of_accept hl, rfl⟩
  · cases h

/-- A statement starts with a command, from which its place comes, its body follows, and its comment is
left at the end. -/
theorem parts_of_readStatement {codec : Given R (Codec R)} {ts : List (Token R)} {s : Statement R}
    (h : readStatement codec ts = .ok (some s)) : ∃ command rest us, ts = command :: rest ∧
      s.place = command.place ∧ (readBody codec command).run rest = .ok (s.body, us) ∧
      (s.comment = .text "" ∨ ∃ k ∈ us, s.comment = k.text) := by
  unfold readStatement at h
  split at h
  · cases h
  split at h
  · cases h
  rename_i u us _
  obtain ⟨vs, hw⟩ : ∃ vs, (readWhole codec).run (u :: us) = .ok (s, vs) := by
    obtain ⟨r, hr, hrs⟩ := bind_eq_ok.1 h
    obtain rfl : r = s := Option.some.inj (Except.ok.inj hrs)
    rw [StateT.run'_eq] at hr
    obtain ⟨⟨r', vs⟩, hw, rfl⟩ := map_eq_ok.1 hr
    exact ⟨vs, hw⟩
  obtain ⟨command, ws, hc, hw⟩ := run_bind_eq_ok.1 hw
  obtain ⟨body, xs, hb, hw⟩ := run_bind_eq_ok.1 hw
  dsimp only at hw
  -- A semicolon is taken off first, unless the statement stands around the picture.
  have hclosing : s.place = command.place ∧ s.body = body ∧
      (s.comment = .text "" ∨ ∃ k ∈ xs, s.comment = k.text) := by
    split at hw
    · obtain ⟨semicolon, ys, hy, hw⟩ := run_bind_eq_ok.1 hw
      obtain ⟨hp, hbody, hcomment⟩ := closing_run hw
      refine ⟨hp, hbody, hcomment.imp id ?_⟩
      rintro ⟨k, hk, hcomment⟩
      exact ⟨k, Drops.expect _ _ _ _ hy k hk, hcomment⟩
    · exact closing_run hw
  obtain ⟨hp, rfl, hcomment⟩ := hclosing
  exact ⟨command, ws, xs, (expect_run hc).1, hp, hb, hcomment⟩

/-- Whether a statement is no label. -/
def NoLabel (b : StatementBody R) : Prop := ∀ p t, b ≠ .label p t

theorem noLabel_ellipse (codec : Given R (Codec R)) (center options : Value R) :
    Returns (readEllipse codec center options) NoLabel :=
  Returns.bind fun _ => Returns.bind fun _ => Returns.bind fun _ => Returns.bind fun _ =>
    Returns.bind fun _ => Returns.pure fun _ _ => by simp

theorem noLabel_point (codec : Given R (Codec R)) : Returns (readPoint codec) NoLabel :=
  Returns.bind fun _ => Returns.bind fun _ => Returns.bind fun _ => Returns.bind fun _ =>
    Returns.bind fun _ => Returns.pure fun _ _ => by simp

theorem noLabel_draw (codec : Given R (Codec R)) (place : Place R) :
    Returns (readDraw codec place) NoLabel := by
  refine Returns.bind fun options => Returns.bind fun start => Returns.bind fun dashes => ?_
  split
  · exact Returns.bind fun _ => Returns.pure fun _ _ => by simp
  refine Returns.bind fun dots => ?_
  split
  · exact Returns.bind fun _ => Returns.bind fun _ => Returns.bind fun _ => Returns.bind fun _ =>
      Returns.pure fun _ _ => by simp
  refine Returns.bind fun ts => ?_
  split
  · exact Returns.failAt _ _
  · split
    · exact Returns.bind fun _ => noLabel_ellipse codec start _
    · exact Returns.failAt _ _

omit [Arithmetic R] in
theorem noLabel_environment {body : StatementBody R} (hb : NoLabel body) :
    Returns (readEnvironment body) NoLabel := by
  refine Returns.bind fun group => Returns.bind fun name => ?_
  split
  · exact Returns.failAt _ _
  · split
    · exact Returns.bind fun _ => Returns.pure hb
    · exact Returns.pure hb

theorem label_of_readLabel {codec : Given R (Codec R)} {ts us : List (Token R)} {p : Value R}
    {t : List Char} (h : (readLabel codec).run ts = .ok (.label p t, us)) :
    ∃ k ∈ ts, k.kind = .group ∧ t = stripMath (textOf k.text) := by
  obtain ⟨_, vs, h1, h⟩ := run_bind_eq_ok.1 h
  obtain ⟨position, ws, h2, h⟩ := run_bind_eq_ok.1 h
  obtain ⟨group, xs, h3, h⟩ := run_bind_eq_ok.1 h
  cases h
  obtain ⟨rfl, hk⟩ := expect_run h3
  refine ⟨group, ?_, hk, rfl⟩
  exact Drops.expectWord "at" _ _ _ h1 _ (drops_coordinate codec _ _ _ h2 _ List.mem_cons_self)

theorem label_of_readBody {codec : Given R (Codec R)} {command : Token R} {ts us : List (Token R)}
    {p : Value R} {t : List Char} (h : (readBody codec command).run ts = .ok (.label p t, us)) :
    ∃ k ∈ ts, k.kind = .group ∧ t = stripMath (textOf k.text) := by
  have no {m : TokenReader R (StatementBody R)} (hm : Returns m NoLabel)
      (h : m.run ts = .ok (.label p t, us)) : False :=
    hm ts _ us h p t rfl
  unfold readBody at h
  split at h
  · exact (no (noLabel_point codec) h).elim
  · exact (no (noLabel_draw codec _) h).elim
  · exact label_of_readLabel h
  · exact (no (noLabel_environment fun _ _ => by simp) h).elim
  · exact (no (noLabel_environment fun _ _ => by simp) h).elim
  · cases h

/-- The text of a label is that of a group without its math delimiters. -/
theorem label_of_readStatement {codec : Given R (Codec R)} {ts : List (Token R)} {s : Statement R}
    (h : readStatement codec ts = .ok (some s)) {p : Value R} {t : List Char}
    (hs : s.body = .label p t) : ∃ k ∈ ts, k.kind = .group ∧ t = stripMath (textOf k.text) := by
  obtain ⟨command, rest, us, rfl, -, hb, -⟩ := parts_of_readStatement h
  rw [hs] at hb
  obtain ⟨k, hk, hg⟩ := label_of_readBody hb
  exact ⟨k, List.mem_cons_of_mem _ hk, hg⟩

/-- The comment of a statement, if it has one, is that of a token. -/
theorem comment_of_readStatement {codec : Given R (Codec R)} {ts : List (Token R)} {s : Statement R}
    (h : readStatement codec ts = .ok (some s)) :
    s.comment = .text "" ∨ ∃ k ∈ ts, s.comment = k.text := by
  obtain ⟨command, rest, us, rfl, -, hb, hc⟩ := parts_of_readStatement h
  refine hc.imp id ?_
  rintro ⟨k, hk, hc⟩
  exact ⟨k, List.mem_cons_of_mem _ (drops_body codec command _ _ _ hb k hk), hc⟩

end FeynmanTikz
