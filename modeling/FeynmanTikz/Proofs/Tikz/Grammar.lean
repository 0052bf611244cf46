/-
The grammar of a line.

`Grammar.Line ts s` says, without a reader, that the tokens `ts` are a line of the text format and that
this line says `s`:

    Line   := Body ';' [ Comment ]                      (within a picture)
            | Body [ Comment ]                          (around a picture)
    Body   := 'fill' Coordinate 'circle' '(' Number ')'
            | 'draw' [ Options ] Coordinate Path
            | 'node' 'at' Coordinate Group
            | 'begin' Group [ Options ]
            | 'end' Group
    Path   := '--' Coordinate
            | '..' 'controls' Coordinate '..' Coordinate
            | 'ellipse' '(' Number 'and' Number ')'

* `Grammar.Coordinate` and `Grammar.Length`: numbers, finite before and after they are scaled,
* `Grammar.Path`, `Grammar.Body` and `Grammar.Line`: the rules above, each with what it says,
* `expect_bind_run` and its companions: a reader that goes on with another is run one token at a time,
* `parses_coordinate`, …, `readBody_run`, `readWhole_run`: each reader accepts its rule and nothing else,
* `readStatement_iff_grammar`: so does the reader of a line, and it fails to read everything else.

Design notes.
* The rules are about token lists of any origin.  Only that nothing but a failure to read is left over
  takes tokens that have been cut from a line.
-/
import FeynmanTikz.Proofs.Number.Exact
import FeynmanTikz.Proofs.Tikz.Refusals

namespace FeynmanTikz

open TokenReader

variable {R : Type}

/-! ### The rules -/

/-- A token of a kind with a given text. -/
structure Token.Spells (t : Token R) (kind : TokenKind) (text : String) : Prop where
  kind : t.kind = kind
  text : t.text = .text text

namespace Grammar

/-- At most one token of a kind; what it says is its text. -/
inductive Optional (kind : TokenKind) : List (Token R) → Value R → Prop
  | absent : Optional kind [] (.text "")
  | present {t : Token R} (h : t.kind = kind) : Optional kind [t] t.text

/-- Nothing is said by a line that is empty or only a comment. -/
def Blank (ts : List (Token R)) : Prop := ts = [] ∨ ∃ t : Token R, ts = [t] ∧ t.kind = .comment

/-- A group that names the environment of the picture, blanks around the name aside. -/
structure Environment (t : Token R) : Prop where
  kind : t.kind = .group
  text : ∃ name, t.text = .text name ∧ trim name.toList = pictureEnvironment.toList

variable [Arithmetic R]

/-- A numeral and the finite number it stands for. -/
structure Number (t : Token R) (x : R) : Prop where
  kind : t.kind = .number
  text : readNumber t.text = .ok x
  finite : Arithmetic.isFinite x = true

/-- `(x, y)`, and the position in editor space, which is finite as well. -/
inductive Coordinate : List (Token R) → Value R → Prop
  | mk {opening x comma y closing : Token R} {a b : R} (hopening : opening.kind = .leftParen)
      (hx : Number x a) (hcomma : comma.kind = .comma) (hy : Number y b)
      (hclosing : closing.kind = .rightParen) (ha : Arithmetic.isFinite (a * Measure.scale) = true)
      (hb : Arithmetic.isFinite (-b * Measure.scale) = true) :
      Coordinate [opening, x, comma, y, closing]
        (.pair (.real (a * Measure.scale)) (.real (-b * Measure.scale)))

/-- A numeral, and the length in editor units, which is finite as well. -/
inductive Length : Token R → Value R → Prop
  | mk {t : Token R} {x : R} (ht : Number t x) (hx : Arithmetic.isFinite (x * Measure.scale) = true) :
      Length t (.real (x * Measure.scale))

/-- What is drawn from a position on. -/
inductive Path (start options : Value R) : List (Token R) → StatementBody R → Prop
  | straight {dashes : Token R} {q : List (Token R)} {finish : Value R}
      (hdashes : dashes.kind = .dashes) (hq : Coordinate q finish) :
      Path start options (dashes :: q) (.edge start finish none options)
  | curve {dots controls dots' : Token R} {p q : List (Token R)} {control finish : Value R}
      (hdots : dots.kind = .dots) (hcontrols : controls.Spells .word "controls")
      (hp : Coordinate p control) (hdots' : dots'.kind = .dots) (hq : Coordinate q finish) :
      Path start options (dots :: controls :: (p ++ dots' :: q))
        (.edge start finish (some control) options)
  | ellipse {word opening rx and' ry closing : Token R} {a b : Value R}
      (hword : word.Spells .word "ellipse") (hopening : opening.kind = .leftParen) (hrx : Length rx a)
      (hand : and'.Spells .word "and") (hry : Length ry b) (hclosing : closing.kind = .rightParen) :
      Path start options [word, opening, rx, and', ry, closing] (.ellipse start a b options)

/-- A point, after its command. -/
inductive Point : List (Token R) → StatementBody R → Prop
  | mk {circle opening r closing : Token R} {p : List (Token R)} {position radius : Value R}
      (hp : Coordinate p position) (hcircle : circle.Spells .word "circle")
      (hopening : opening.kind = .leftParen) (hr : Length r radius)
      (hclosing : closing.kind = .rightParen) :
      Point (p ++ [circle, opening, r, closing]) (.point position radius)

/-- An edge, a curve or an ellipse, after its command. -/
inductive Drawing : List (Token R) → StatementBody R → Prop
  | mk {o p path : List (Token R)} {options start : Value R} {body : StatementBody R}
      (ho : Optional .attributes o options) (hp : Coordinate p start)
      (hpath : Path start options path body) : Drawing (o ++ (p ++ path)) body

/-- A label, after its command. -/
inductive Label : List (Token R) → StatementBody R → Prop
  | mk {at' group : Token R} {p : List (Token R)} {position : Value R} (hat : at'.Spells .word "at")
      (hp : Coordinate p position) (hgroup : group.kind = .group) :
      Label (at' :: (p ++ [group])) (.label position (stripMath (textOf group.text)))

/-- What follows the command of a name, up to the semicolon. -/
def Body : String → List (Token R) → StatementBody R → Prop
  | "fill" => Point
  | "draw" => Drawing
  | "node" => Label
  | "begin" => fun ts body => body = .beginPicture ∧ ∃ group o options,
    ts = group :: o ∧ Environment group ∧ Optional .attributes o options
  | "end" => fun ts body => body = .endPicture ∧ ∃ group, ts = [group] ∧ Environment group
  | _ => fun _ _ => False

/-- A line that says something. -/
inductive Line : List (Token R) → Statement R → Prop
  | within {name : String} {command semicolon : Token R} {ts k : List (Token R)}
      {body : StatementBody R} {comment : Value R} (hcommand : command.Spells .command name)
      (hbody : Body name ts body) (hwithin : body.isWrapper = false)
      (hsemicolon : semicolon.kind = .semicolon) (hk : Optional .comment k comment) :
      Line (command :: (ts ++ semicolon :: k)) ⟨command.place, body, comment⟩
  | around {name : String} {command : Token R} {ts k : List (Token R)} {body : StatementBody R}
      {comment : Value R} (hcommand : command.Spells .command name) (hbody : Body name ts body)
      (haround : body.isWrapper = true) (hk : Optional .comment k comment) :
      Line (command :: (ts ++ k)) ⟨command.place, body, comment⟩

end Grammar

/-! ### Running readers -/

section

variable {α β : Type} {ts vs : List (Token R)} {b : β}

theorem expect_bind_run {k : TokenKind} {f : Token R → TokenReader R β} :
    (expect k >>= f).run ts = .ok (b, vs) ↔
      ∃ t us, ts = t :: us ∧ t.kind = k ∧ (f t).run us = .ok (b, vs) := by
  constructor
  · intro h
    obtain ⟨t, us, ht, hf⟩ := run_bind_eq_ok.1 h
    obtain ⟨hts, hk⟩ := expect_run ht
    exact ⟨t, us, hts, hk, hf⟩
  · rintro ⟨t, us, rfl, rfl, hf⟩
    refine run_bind_eq_ok.2 ⟨t, us, ?_, hf⟩
    show (if t.kind = t.kind then (do set us; return t : TokenReader R (Token R)) else
      failAt t.place (.unexpectedToken t.kind t)).run (t :: us) = _
    rw [if_pos rfl]
    rfl

/-- A token of the kind is taken off if it comes next. -/
theorem accept_bind_run {k : TokenKind} {f : Option (Token R) → TokenReader R β} :
    (accept? k >>= f).run ts = .ok (b, vs) ↔
      (∃ t us, ts = t :: us ∧ t.kind = k ∧ (f (some t)).run us = .ok (b, vs)) ∨
        (∀ t ∈ ts.head?, t.kind ≠ k) ∧ (f none).run ts = .ok (b, vs) := by
  cases ts with
  | nil => simp [TokenReader.accept?]
  | cons t ts =>
    have hrun : (accept? k).run (t :: ts) =
        if t.kind = k then .ok (some t, ts) else .ok (none, t :: ts) := by
      show (if t.kind = k then (do set ts; return some t : TokenReader R (Option (Token R))) else
        return none).run (t :: ts) = _
      split <;> rfl
    rw [run_bind_eq_ok, hrun]
    by_cases hk : t.kind = k <;> simp [hk]

theorem isWord_iff {word : String} {v : Value R} : v.isWord word = true ↔ v = .text word := by
  cases v <;> simp [Value.isWord]

theorem expectWord_bind_run {word : String} {f : Unit → TokenReader R β} :
    (expectWord word >>= f).run ts = .ok (b, vs) ↔
      ∃ t us, ts = t :: us ∧ t.Spells .word word ∧ (f ()).run us = .ok (b, vs) := by
  unfold TokenReader.expectWord
  rw [bind_assoc, expect_bind_run]
  refine exists_congr fun t => exists_congr fun us => and_congr_right fun _ => ?_
  by_cases hw : t.text.isWord word = true
  · rw [if_pos hw, pure_bind]
    exact ⟨fun ⟨hk, hf⟩ => ⟨⟨hk, isWord_iff.1 hw⟩, hf⟩, fun ⟨ht, hf⟩ => ⟨ht.kind, hf⟩⟩
  · rw [if_neg hw]
    constructor
    · rintro ⟨-, ⟨⟩⟩
    · rintro ⟨ht, -⟩
      exact absurd (isWord_iff.2 ht.text) hw

theorem liftExcept_bind_run {x : Except (Fault R) α} {f : α → TokenReader R β} :
    (liftM x >>= f : TokenReader R β).run ts = .ok (b, vs) ↔
      ∃ a, x = .ok a ∧ (f a).run ts = .ok (b, vs) := by
  constructor
  · intro h
    obtain ⟨a, us, ha, hf⟩ := run_bind_eq_ok.1 h
    cases x with
    | error e => cases ha
    | ok a =>
      cases ha
      exact ⟨a, rfl, hf⟩
  · rintro ⟨a, rfl, hf⟩
    exact hf

theorem pure_run {a : β} : (pure a : TokenReader R β).run ts = .ok (b, vs) ↔ a = b ∧ ts = vs := by
  rw [StateT.run_pure]
  exact ⟨fun h => Prod.mk.inj (Except.ok.inj h), by rintro ⟨rfl, rfl⟩; rfl⟩

/-- What is only done on a condition, and fails otherwise. -/
theorem ite_failAt_run {c : Prop} [Decidable c] {m : TokenReader R β} {p : Place R}
    {problem : ReadProblem R} :
    (if c then m else failAt p problem).run ts = .ok (b, vs) ↔ c ∧ m.run ts = .ok (b, vs) := by
  by_cases hc : c
  · rw [if_pos hc, and_iff_right hc]
  · rw [if_neg hc]
    constructor
    · rintro ⟨⟩
    · exact fun h => absurd h.1 hc

theorem failAt_run {p : Place R} {problem : ReadProblem R} :
    ¬(failAt p problem : TokenReader R β).run ts = .ok (b, vs) := by
  rintro ⟨⟩

end

/-! ### Readers and their rules -/

variable [Arithmetic R]

/-- The reader takes a text of the rule off, for what it says, and nothing else. -/
def Parses {α : Type} (m : TokenReader R α) (rule : List (Token R) → α → Prop) : Prop :=
  ∀ ts a us, m.run ts = .ok (a, us) ↔ ∃ ps, ts = ps ++ us ∧ rule ps a

section

variable {α β : Type} {ts vs : List (Token R)} {b : β}

omit [Arithmetic R] in
theorem Parses.bind_run {m : TokenReader R α} {rule : List (Token R) → α → Prop} (hm : Parses m rule)
    {f : α → TokenReader R β} : (m >>= f).run ts = .ok (b, vs) ↔
      ∃ ps a us, ts = ps ++ us ∧ rule ps a ∧ (f a).run us = .ok (b, vs) := by
  rw [run_bind_eq_ok]
  constructor
  · rintro ⟨a, us, ha, hf⟩
    obtain ⟨ps, hts, hps⟩ := (hm _ _ _).1 ha
    exact ⟨ps, a, us, hts, hps, hf⟩
  · rintro ⟨ps, a, us, hts, hps, hf⟩
    exact ⟨a, us, (hm _ _ _).2 ⟨ps, hts, hps⟩, hf⟩

theorem numberOf_bind_run {t : Token R} {f : Value R → TokenReader R β} :
    (numberOf t >>= f).run ts = .ok (b, vs) ↔
      ∃ x, readNumber t.text = .ok x ∧ Arithmetic.isFinite x = true ∧
        (f (.real x)).run ts = .ok (b, vs) := by
  unfold numberOf
  rw [bind_assoc, liftExcept_bind_run]
  refine exists_congr fun x => and_congr_right fun _ => ?_
  by_cases hx : Arithmetic.isFinite x = true
  · rw [if_pos hx, pure_bind]
    exact (and_iff_right hx).symm
  · rw [if_neg hx]
    exact ⟨fun h => (failAt_run h).elim, fun h => absurd h.1 hx⟩

end

theorem parses_coordinate : Parses (R := R) (readCoordinate standardCodec) Grammar.Coordinate := by
  intro ts p us
  unfold readCoordinate
  simp only [expect_bind_run, numberOf_bind_run, liftExcept_bind_run, ite_failAt_run, pure_run]
  constructor
  · rintro ⟨opening, _, rfl, ho, x, _, rfl, hx, a, hxa, ha, comma, _, rfl, hc, y, _, rfl, hy, b, hyb, hb,
      closing, _, rfl, hcl, _, ⟨⟩, _, ⟨⟩, _, ⟨⟩, has, _, ⟨⟩, hbs, rfl, rfl⟩
    exact ⟨_, rfl, .mk ho ⟨hx, hxa, ha⟩ hc ⟨hy, hyb, hb⟩ hcl has hbs⟩
  · rintro ⟨_, rfl, ⟨ho, hx, hc, hy, hcl, has, hbs⟩⟩
    exact ⟨_, _, rfl, ho, _, _, rfl, hx.kind, _, hx.text, hx.finite, _, _, rfl, hc, _, _, rfl, hy.kind,
      _, hy.text, hy.finite, _, _, rfl, hcl, _, rfl, _, rfl, _, rfl, has, _, rfl, hbs, rfl, rfl⟩

theorem parses_length : Parses (R := R) (readLength standardCodec)
    (fun ps v => ∃ t, ps = [t] ∧ Grammar.Length t v) := by
  intro ts v us
  unfold readLength
  simp only [expect_bind_run, numberOf_bind_run, liftExcept_bind_run, ite_failAt_run, pure_run]
  constructor
  · rintro ⟨t, _, rfl, ht, x, hx, hf, _, ⟨⟩, _, ⟨⟩, _, ⟨⟩, hs, rfl, rfl⟩
    exact ⟨_, rfl, t, rfl, .mk ⟨ht, hx, hf⟩ hs⟩
  · rintro ⟨_, rfl, t, rfl, ⟨ht, hs⟩⟩
    exact ⟨t, _, rfl, ht.kind, _, ht.text, ht.finite, _, rfl, _, rfl, _, rfl, hs, rfl, rfl⟩

theorem parses_point : Parses (R := R) (readPoint standardCodec) Grammar.Point := by
  intro ts body us
  unfold readPoint
  simp only [parses_coordinate.bind_run, parses_length.bind_run, expect_bind_run, expectWord_bind_run,
    pure_run]
  constructor
  · rintro ⟨p, position, _, rfl, hp, circle, _, rfl, hw, opening, _, rfl, ho, _, radius, _, rfl,
      ⟨r, rfl, hr⟩, closing, _, rfl, hc, rfl, rfl⟩
    exact ⟨p ++ [circle, opening, r, closing], by simp, .mk hp hw ho hr hc⟩
  · rintro ⟨_, rfl, ⟨hp, hw, ho, hr, hc⟩⟩
    exact ⟨_, _, _, by simp, hp, _, _, rfl, hw, _, _, rfl, ho, _, _, _, rfl, ⟨_, rfl, hr⟩, _, _, rfl, hc,
      rfl, rfl⟩

theorem parses_label : Parses (R := R) (readLabel standardCodec) Grammar.Label := by
  intro ts body us
  unfold readLabel
  simp only [parses_coordinate.bind_run, expect_bind_run, expectWord_bind_run, pure_run]
  constructor
  · rintro ⟨at', _, rfl, hat, p, position, _, rfl, hp, group, _, rfl, hg, rfl, rfl⟩
    exact ⟨at' :: (p ++ [group]), by simp, .mk hat hp hg⟩
  · rintro ⟨_, rfl, ⟨hat, hp, hg⟩⟩
    exact ⟨_, _, rfl, hat, _, _, _, by simp, hp, _, _, rfl, hg, rfl, rfl⟩

theorem parses_ellipse {start options : Value R} {ts us : List (Token R)} {body : StatementBody R} :
    (readEllipse standardCodec start options).run ts = .ok (body, us) ↔
      ∃ opening rx and' ry closing a b, ts = opening :: rx :: and' :: ry :: closing :: us ∧
        opening.kind = .leftParen ∧ Grammar.Length rx a ∧ and'.Spells .word "and" ∧
        Grammar.Length ry b ∧ closing.kind = .rightParen ∧ body = .ellipse start a b options := by
  unfold readEllipse
  simp only [parses_length.bind_run, expect_bind_run, expectWord_bind_run, pure_run]
  constructor
  · rintro ⟨opening, _, rfl, ho, _, a, _, rfl, ⟨rx, rfl, hrx⟩, and', _, rfl, hand, _, b, _, rfl,
      ⟨ry, rfl, hry⟩, closing, _, rfl, hc, rfl, rfl⟩
    exact ⟨opening, rx, and', ry, closing, a, b, rfl, ho, hrx, hand, hry, hc, rfl⟩
  · rintro ⟨opening, rx, and', ry, closing, a, b, rfl, ho, hrx, hand, hry, hc, rfl⟩
    exact ⟨_, _, rfl, ho, _, _, _, rfl, ⟨_, rfl, hrx⟩, _, _, rfl, hand, _, _, _, rfl, ⟨_, rfl, hry⟩, _, _,
      rfl, hc, rfl, rfl⟩

/-- What is read after the first position of a drawing. -/
def readPath (codec : Given R (Codec R)) (command : Place R) (start options : Value R) :
    TokenReader R (StatementBody R) := do
  if (← accept? .dashes).isSome then
    let finish ← readCoordinate codec
    return .edge start finish none options
  else if (← accept? .dots).isSome then
    expectWord "controls"
    let control ← readCoordinate codec
    let _ ← expect .dots
    let finish ← readCoordinate codec
    return .edge start finish (some control) options
  else
    match ← get with
    | [] => failAt command .unterminatedDraw
    | t :: rest =>
      if t.kind = .word ∧ t.text.isWord "ellipse" then
        set rest
        readEllipse codec start options
      else failAt t.place .noPath

theorem readDraw_eq (codec : Given R (Codec R)) (command : Place R) :
    readDraw codec command = (do
      let options ← accept? .attributes
      let start ← readCoordinate codec
      readPath codec command start (match options with
        | some t => t.text
        | none => .text "")) := rfl

/-- The last form of a drawing starts with a word. -/
theorem ellipse_run {command : Place R} {start options : Value R} {ts us : List (Token R)}
    {body : StatementBody R} : (do
      match ← get with
      | [] => failAt command .unterminatedDraw
      | t :: rest =>
        if t.kind = .word ∧ t.text.isWord "ellipse" then
          set rest
          readEllipse standardCodec start options
        else failAt t.place .noPath : TokenReader R (StatementBody R)).run ts = .ok (body, us) ↔
      ∃ t rest, ts = t :: rest ∧ t.Spells .word "ellipse" ∧
        (readEllipse standardCodec start options).run rest = .ok (body, us) := by
  cases ts with
  | nil =>
    constructor
    · rintro ⟨⟩
    · rintro ⟨t, rest, ⟨⟩, -⟩
  | cons t rest =>
    show (if t.kind = .word ∧ t.text.isWord "ellipse" = true then (do
      set rest
      readEllipse standardCodec start options) else failAt t.place .noPath).run (t :: rest) = _ ↔ _
    rw [ite_failAt_run]
    constructor
    · rintro ⟨⟨hk, hw⟩, h⟩
      exact ⟨t, rest, rfl, ⟨hk, isWord_iff.1 hw⟩, h⟩
    · rintro ⟨_, _, ⟨⟩, ht, h⟩
      exact ⟨⟨ht.kind, isWord_iff.2 ht.text⟩, h⟩

theorem parses_path (command : Place R) (start options : Value R) :
    Parses (readPath standardCodec command start options) (Grammar.Path start options) := by
  intro ts body us
  unfold readPath
  simp only [accept_bind_run, parses_coordinate.bind_run, expect_bind_run, expectWord_bind_run, pure_run,
    ellipse_run, parses_ellipse, Option.isSome_some, Option.isSome_none, if_true, Bool.false_eq_true,
    if_false]
  constructor
  · rintro (⟨dashes, _, rfl, hd, q, finish, _, rfl, hq, rfl, rfl⟩ | ⟨-, ⟨dots, _, rfl, hd, controls, _, rfl,
      hw, p, control, _, rfl, hp, dots', _, rfl, hd', q, finish, _, rfl, hq, rfl, rfl⟩ | ⟨-, word, _, rfl,
      hw, opening, rx, and', ry, closing, a, b, rfl, ho, hrx, hand, hry, hc, rfl⟩⟩)
    · exact ⟨dashes :: q, rfl, .straight hd hq⟩
    · exact ⟨dots :: controls :: (p ++ dots' :: q), by simp, .curve hd hw hp hd' hq⟩
    · exact ⟨[word, opening, rx, and', ry, closing], rfl, .ellipse hw ho hrx hand hry hc⟩
  · -- The three forms differ in the kind of their first token.
    rintro ⟨_, rfl, (⟨hd, hq⟩ | ⟨hd, hw, hp, hd', hq⟩ | ⟨hw, ho, hrx, hand, hry, hc⟩)⟩
    · exact .inl ⟨_, _, rfl, hd, _, _, _, rfl, hq, rfl, rfl⟩
    · exact .inr ⟨by simp [hd], .inl ⟨_, _, rfl, hd, _, _, rfl, hw, _, _, _, by simp, hp, _, _, rfl, hd',
        _, _, _, rfl, hq, rfl, rfl⟩⟩
    · exact .inr ⟨by simp [hw.kind], .inr ⟨by simp [hw.kind], _, _, rfl, hw, _, _, _, _, _, _, _, rfl, ho,
        hrx, hand, hry, hc, rfl⟩⟩

/-- A coordinate pair starts with a parenthesis. -/
theorem Grammar.Coordinate.head {ps : List (Token R)} {p : Value R} (h : Grammar.Coordinate ps p)
    (us : List (Token R)) : ∀ t ∈ (ps ++ us).head?, t.kind = .leftParen := by
  obtain ⟨ho, -, -, -, -, -, -⟩ := h
  rintro t ⟨⟩
  exact ho

theorem parses_draw (command : Place R) :
    Parses (readDraw standardCodec command) (Grammar.Drawing (R := R)) := by
  intro ts body us
  rw [readDraw_eq]
  simp only [accept_bind_run, parses_coordinate.bind_run, parses_path command _ _ _ _ _]
  constructor
  · rintro (⟨t, _, rfl, ht, p, start, _, rfl, hp, path, rfl, hpath⟩ |
      ⟨-, p, start, _, rfl, hp, path, rfl, hpath⟩)
    · exact ⟨[t] ++ (p ++ path), by simp, .mk (.present ht) hp hpath⟩
    · exact ⟨[] ++ (p ++ path), by simp, .mk .absent hp hpath⟩
  · rintro ⟨_, rfl, ⟨ho, hp, hpath⟩⟩
    cases ho with
    | absent =>
      refine .inr ⟨fun t ht => ?_, _, _, _, by simp, hp, _, rfl, hpath⟩
      rw [List.nil_append, List.append_assoc] at ht
      rw [hp.head _ t ht]
      simp
    | present ht => exact .inl ⟨_, _, rfl, ht, _, _, _, by simp, hp, _, rfl, hpath⟩

omit [Arithmetic R] in
/-- The environment is looked at before anything else is read. -/
theorem environment_run {m : TokenReader R (StatementBody R)} {ts us : List (Token R)}
    {body : StatementBody R} : (do
      let group ← expect .group
      let name ← group.text.characters
      if trim name ≠ pictureEnvironment.toList then failAt group.place .wrongEnvironment
      else m : TokenReader R (StatementBody R)).run ts = .ok (body, us) ↔
      ∃ group vs, ts = group :: vs ∧ Grammar.Environment group ∧ m.run vs = .ok (body, us) := by
  simp only [expect_bind_run, liftExcept_bind_run]
  refine exists_congr fun group => exists_congr fun vs => and_congr_right fun _ => ?_
  constructor
  · rintro ⟨hk, name, hname, h⟩
    obtain ⟨text, htext, rfl⟩ : ∃ text, group.text = .text text ∧ text.toList = name := by
      revert hname
      cases group.text <;> simp [Value.characters]
    split at h
    · exact (failAt_run h).elim
    · rename_i htrim
      exact ⟨⟨hk, text, htext, not_not.1 htrim⟩, h⟩
  · rintro ⟨⟨hk, text, htext, htrim⟩, h⟩
    refine ⟨hk, text.toList, by rw [htext]; rfl, ?_⟩
    rwa [if_neg (not_not.2 htrim)]

/-- What follows a command, unless an option list comes right after it. -/
theorem readBody_run {command : Token R} {ts us : List (Token R)} {body : StatementBody R}
    (hus : ∀ t ∈ us.head?, t.kind ≠ .attributes) :
    (readBody standardCodec command).run ts = .ok (body, us) ↔
      ∃ name ps, command.text = .text name ∧ ts = ps ++ us ∧ Grammar.Body name ps body := by
  -- Whatever the command is, its rule is the one for its name.
  have named {name : String} {m : TokenReader R (StatementBody R)} (hname : command.text = .text name)
      (hm : m.run ts = .ok (body, us) ↔ ∃ ps, ts = ps ++ us ∧ Grammar.Body name ps body) :
      m.run ts = .ok (body, us) ↔
        ∃ name ps, command.text = .text name ∧ ts = ps ++ us ∧ Grammar.Body name ps body := by
    rw [hm, hname]
    constructor
    · rintro ⟨ps, h⟩
      exact ⟨name, ps, rfl, h⟩
    · rintro ⟨_, ps, ⟨⟩, h⟩
      exact ⟨ps, h⟩
  unfold readBody
  split
  · rename_i hname
    exact named hname (parses_point _ _ _)
  · rename_i hname
    exact named hname (parses_draw _ _ _ _)
  · rename_i hname
    exact named hname (parses_label _ _ _)
  · rename_i hname
    refine named hname (environment_run.trans ?_)
    simp only [accept_bind_run, pure_run]
    constructor
    · rintro ⟨group, vs, rfl, hg, (⟨t, _, rfl, ht, rfl, rfl⟩ | ⟨-, rfl, rfl⟩)⟩
      · exact ⟨[group, t], rfl, rfl, group, _, _, rfl, hg, .present ht⟩
      · exact ⟨[group], rfl, rfl, group, _, _, rfl, hg, .absent⟩
    · rintro ⟨_, rfl, rfl, group, o, _, rfl, hg, ho⟩
      cases ho with
      | absent => exact ⟨_, _, rfl, hg, .inr ⟨hus, rfl, rfl⟩⟩
      | present ht => exact ⟨_, _, rfl, hg, .inl ⟨_, _, rfl, ht, rfl, rfl⟩⟩
  · rename_i hname
    refine named hname (environment_run.trans ?_)
    simp only [pure_run]
    constructor
    · rintro ⟨group, vs, rfl, hg, rfl, rfl⟩
      exact ⟨[group], rfl, rfl, group, rfl, hg⟩
    · rintro ⟨_, rfl, rfl, group, rfl, hg⟩
      exact ⟨_, _, rfl, hg, rfl, rfl⟩
  · rename_i hfill hdraw hnode hbegin hend
    refine ⟨fun h => (failAt_run h).elim, ?_⟩
    rintro ⟨name, ps, hname, -, hbody⟩
    unfold Grammar.Body at hbody
    split at hbody
    · exact absurd hname hfill
    · exact absurd hname hdraw
    · exact absurd hname hnode
    · exact absurd hname hbegin
    · exact absurd hname hend
    · exact hbody.elim

/-! ### Whole lines -/

omit [Arithmetic R] in
/-- A comment may follow, and then the line is over. -/
theorem closing_run_iff {place : Place R} {body : StatementBody R} {ts us : List (Token R)}
    {s : Statement R} : (do
      let last ← accept? .comment
      match ← get with
      | [] => return ⟨place, body, match last with
        | some t => t.text
        | none => .text ""⟩
      | t :: _ => failAt t.place (.trailingToken t.text) : TokenReader R (Statement R)).run ts =
        .ok (s, us) ↔
      us = [] ∧ ∃ comment, Grammar.Optional .comment ts comment ∧ s = ⟨place, body, comment⟩ := by
  rw [accept_bind_run]
  constructor
  · rintro (⟨t, ws, rfl, ht, h⟩ | ⟨-, h⟩)
    · cases ws with
      | nil =>
        cases h
        exact ⟨rfl, _, .present ht, rfl⟩
      | cons u ws => cases h
    · cases ts with
      | nil =>
        cases h
        exact ⟨rfl, _, .absent, rfl⟩
      | cons u ts => cases h
  · rintro ⟨rfl, comment, hc, rfl⟩
    cases hc with
    | absent => exact .inr ⟨by simp, rfl⟩
    | present ht => exact .inl ⟨_, _, rfl, ht, rfl⟩

omit [Arithmetic R] in
theorem Grammar.Optional.head {kind : TokenKind} {ts : List (Token R)} {v : Value R}
    (h : Grammar.Optional kind ts v) : ∀ t ∈ ts.head?, t.kind = kind := by
  cases h with
  | absent => simp
  | present ht =>
    rintro t ⟨⟩
    exact ht

theorem readWhole_run {ts us : List (Token R)} {s : Statement R} :
    (readWhole standardCodec).run ts = .ok (s, us) ↔ us = [] ∧ Grammar.Line ts s := by
  unfold readWhole
  rw [expect_bind_run]
  constructor
  · rintro ⟨command, vs, rfl, hc, h⟩
    obtain ⟨body, ws, hb, h⟩ := run_bind_eq_ok.1 h
    dsimp only at h
    -- Neither a semicolon nor a comment is an option list, so the body is over before it.
    split at h
    · rename_i hw
      obtain ⟨semicolon, k, rfl, hs, h⟩ := expect_bind_run.1 h
      obtain ⟨rfl, comment, hk, rfl⟩ := closing_run_iff.1 h
      obtain ⟨name, ps, hname, rfl, hbody⟩ := (readBody_run (by simp [hs])).1 hb
      exact ⟨rfl, .within ⟨hc, hname⟩ hbody (by simpa using hw) hs hk⟩
    · rename_i hw
      obtain ⟨rfl, comment, hk, rfl⟩ := closing_run_iff.1 h
      obtain ⟨name, ps, hname, rfl, hbody⟩ :=
        (readBody_run fun t ht => by rw [hk.head t ht]; simp).1 hb
      exact ⟨rfl, .around ⟨hc, hname⟩ hbody (by simpa using hw) hk⟩
  · rintro ⟨rfl, (⟨hc, hbody, hw, hs, hk⟩ | ⟨hc, hbody, hw, hk⟩)⟩
    · refine ⟨_, _, rfl, hc.kind, run_bind_eq_ok.2
        ⟨_, _, (readBody_run (by simp [hs])).2 ⟨_, _, hc.text, rfl, hbody⟩, ?_⟩⟩
      dsimp only
      rw [if_pos (by simp [hw])]
      exact expect_bind_run.2 ⟨_, _, rfl, hs, closing_run_iff.2 ⟨rfl, _, hk, rfl⟩⟩
    · refine ⟨_, _, rfl, hc.kind, run_bind_eq_ok.2
        ⟨_, _, (readBody_run fun t ht => by rw [hk.head t ht]; simp).2 ⟨_, _, hc.text, rfl, hbody⟩, ?_⟩⟩
      dsimp only
      rw [if_neg (by simp [hw])]
      exact closing_run_iff.2 ⟨rfl, _, hk, rfl⟩

theorem Grammar.Line.head {ts : List (Token R)} {s : Statement R} (h : Grammar.Line ts s) :
    ∃ t us, ts = t :: us ∧ t.kind = .command := by
  cases h with
  | within hc => exact ⟨_, _, rfl, hc.kind⟩
  | around hc => exact ⟨_, _, rfl, hc.kind⟩

theorem readStatement_cons (codec : Given R (Codec R)) (t : Token R) (ts : List (Token R)) :
    readStatement codec (t :: ts) = if t.kind = .comment then .ok none else do
      return some (← (readWhole codec).run' (t :: ts)) := rfl

/-- A statement is read from the tokens that say it, whatever their origin. -/
theorem readStatement_eq_some {ts : List (Token R)} {s : Statement R} :
    readStatement standardCodec ts = .ok (some s) ↔ Grammar.Line ts s := by
  constructor
  · intro h
    cases ts with
    | nil => cases h
    | cons t ts =>
    rw [readStatement_cons] at h
    split at h
    · cases h
    obtain ⟨r, hr, hrs⟩ := bind_eq_ok.1 h
    cases hrs
    rw [StateT.run'_eq] at hr
    obtain ⟨⟨r, us⟩, hw, rfl⟩ := map_eq_ok.1 hr
    exact (readWhole_run.1 hw).2
  · intro h
    obtain ⟨t, us, rfl, ht⟩ := h.head
    have hw := readWhole_run.2 ⟨rfl, h⟩
    rw [readStatement_cons, if_neg (by simp [ht]), StateT.run'_eq, hw]
    rfl

/-- Nothing is read from a line that is empty or starts with a comment. -/
theorem readStatement_eq_none {ts : List (Token R)} :
    readStatement standardCodec ts = .ok none ↔ ∀ t ∈ ts.head?, t.kind = .comment := by
  cases ts with
  | nil => exact ⟨fun _ => by simp, fun _ => rfl⟩
  | cons t ts =>
    rw [readStatement_cons]
    by_cases ht : t.kind = .comment
    · simp [ht]
    · rw [if_neg ht]
      constructor
      · intro h
        obtain ⟨r, -, ⟨⟩⟩ := bind_eq_ok.1 h
      · intro h
        exact absurd (h t rfl) ht

/-- The reader of a line reads nothing where there is nothing, a statement where the grammar says so and
just this one, and fails to read everything else. -/
theorem readStatement_iff_grammar {line : Value R} {text : List Char} {ts : List (Token R)}
    (h : tokenize line text = .ok ts) :
    (readStatement standardCodec ts = .ok none ↔ Grammar.Blank ts) ∧
      (∀ s, readStatement standardCodec ts = .ok (some s) ↔ Grammar.Line ts s) ∧
      (Grammar.Blank ts ∨ (∃ s, Grammar.Line ts s) ∨
        ∃ f, readStatement standardCodec ts = .error (.unreadable f)) := by
  have hblank : readStatement standardCodec ts = .ok none ↔ Grammar.Blank ts := by
    rw [readStatement_eq_none]
    constructor
    · intro hhead
      cases ts with
      | nil => exact .inl rfl
      | cons t ts =>
        obtain rfl := eq_nil_of_comment h (hhead t rfl)
        exact .inr ⟨t, rfl, hhead t rfl⟩
    · rintro (rfl | ⟨t, rfl, ht⟩)
      · simp
      · simpa using ht
  refine ⟨hblank, fun s => readStatement_eq_some, ?_⟩
  have hcut : ∀ t ∈ ts, t.IsCut fun _ => True :=
    (ends_tokenizeFrom fun _ _ => trivial).ok h
  rcases hr : readStatement standardCodec ts with e | _ | s
  · obtain ⟨f, rfl, -⟩ := (ends_readStatement hcut).error hr
    exact .inr (.inr ⟨f, rfl⟩)
  · exact .inl (hblank.1 hr)
  · exact .inr (.inl ⟨s, readStatement_eq_some.1 hr⟩)

theorem readStatement_iff_grammar_point : ∃ ts : List (Token Exact),
    tokenize (.int 1) "\\fill (0.5, -1) circle (0.1); % p".toList = .ok ts ∧
    (readStatement standardCodec ts = .ok none ↔ Grammar.Blank ts) ∧
      (∀ s, readStatement standardCodec ts = .ok (some s) ↔ Grammar.Line ts s) ∧
      (Grammar.Blank ts ∨ (∃ s, Grammar.Line ts s) ∨
        ∃ f, readStatement standardCodec ts = .error (.unreadable f)) := by
  obtain ⟨ts, hts⟩ := exists_of_isOk (x := (tokenize (.int 1)
    "\\fill (0.5, -1) circle (0.1); % p".toList : Except (Fault Exact) _)) (by decide +kernel)
  exact ⟨ts, hts, readStatement_iff_grammar hts⟩

end FeynmanTikz
