/-
How reading a line may fail.

Reading asks for numbers, texts and pairs all the way, and each of these could fail on its own if it
were given something else.  On what a line has been cut into it is given what it asks for.  So reading
fails only where it means to: at a place on the line, unless the line ends too early.

* `Fault.IsAt on`: the failures to read at places that satisfy `on`,
* `Token.IsCut on`: what is known of a token that has been cut from a line; `ends_tokenizeFrom`,
* `TokenReader.Ends on P`: on such tokens a reader returns something that satisfies `P`, or fails so;
  `Ends.bind` and its companions are the rules,
* `StatementBody.IsReal`: positions and lengths of a statement are numbers of type `R`,
* `ends_lineStatement`: the statement on a line is of this kind, or the line is unreadable.
-/
import FeynmanTikz.Proofs.Number.Lexemes
import FeynmanTikz.Proofs.Tikz.Readers

namespace FeynmanTikz

open TokenReader

variable {R : Type} [Arithmetic R]

/-- The faults of a text that cannot be read. -/
def Fault.IsUnreadable (e : Fault R) : Prop := ∃ f, e = .unreadable f

/-- The failures at places that satisfy `on`.  A line that ends too early fails at no place. -/
def ReadFailure.IsAt (on : Place R → Prop) (f : ReadFailure R) : Prop :=
  match f.place with
  | some p => on p
  | none => ∃ k, f.problem = .unexpectedEnd k

/-- The failures to read at places that satisfy `on`. -/
def Fault.IsAt (on : Place R → Prop) (e : Fault R) : Prop := ∃ f, e = .unreadable f ∧ f.IsAt on

/-- The places on a line: its number, and a column the line has. -/
def Place.IsOn (n : Nat) (line : List Char) (p : Place R) : Prop :=
  ∃ m : Nat, p = ⟨.int n, .int m⟩ ∧ 1 ≤ m ∧ m ≤ line.length

omit [Arithmetic R] in
theorem isAt_of_place {on : Place R → Prop} {p : Place R} (hp : on p) (problem : ReadProblem R) :
    Fault.IsAt on (.unreadable { place := some p, problem }) := ⟨_, rfl, hp⟩

/-! ### Tokens of a line -/

/-- What is known of a token that has been cut from a line on which the places satisfy `on`. -/
structure Token.IsCut (on : Place R → Prop) (t : Token R) : Prop where
  text : ∃ text, t.text = .text text ∧ (t.kind = .number → ∃ n, Numeral.ofText? text.toList = some n)
  place : on t.place

variable {on : Place R → Prop}

omit [Arithmetic R] in
/-- A lexeme that is a number can be read. -/
theorem numeral_of_lexeme {c : Char} {rest : List Char} {l : Lexeme}
    (h : lexeme (R := R) c rest = .ok l) (hk : l.kind = .number) :
    ∃ n, Numeral.ofText? l.text = some n := by
  cases isLexeme_of_lexeme h with
  | number hn => exact ofText?_of_lexeme hn
  | symbol hs => exact absurd hk (kind_of_symbol hs).2.2.1
  | comment | command | attributes | group | dashes | dots | word => cases hk

omit [Arithmetic R] in
/-- What follows a lexeme starts further on. -/
theorem place_of_drop {line : Value R} {column : Int} {c : Char} {t : List Char} (extra : Nat)
    (hon : ∀ k : Nat, k < (c :: t).length → on ⟨line, .int (column + k)⟩) (k : Nat)
    (hk : k < (t.drop extra).length) : on ⟨line, .int (column + 1 + extra + k)⟩ := by
  rw [List.length_drop] at hk
  have h := hon (1 + extra + k) (by rw [List.length_cons]; omega)
  push_cast at h
  rwa [← Int.add_assoc, ← Int.add_assoc] at h

omit [Arithmetic R] in
/-- A text that starts at a column of a line is cut into tokens there, or it is unreadable. -/
theorem ends_tokenizeFrom {line : Value R} {column : Int} {t : List Char}
    (hon : ∀ k : Nat, k < t.length → on ⟨line, .int (column + k)⟩) :
    Ends (Fault.IsAt on) (fun ts => ∀ k ∈ ts, k.IsCut on) (tokenizeFrom line column t) := by
  induction column, t using tokenizeFrom.induct line with
  | case1 column =>
    rw [tokenizeFrom_nil]
    simp [Ends]
  | case2 column c t hc ih =>
    rw [tokenizeFrom_separator hc]
    refine ih fun k hk => ?_
    rw [Int.add_assoc, Int.add_comm 1]
    exact hon (k + 1) (Nat.succ_lt_succ hk)
  | case3 column c t hc problem offset hl =>
    rw [tokenizeFrom_error hc hl]
    exact isAt_of_place (hon offset (Nat.lt_succ_of_le (offset_le_of_lexeme hl))) problem
  | case4 column c t hc l hl e he ih =>
    rw [he] at ih
    rw [tokenizeFrom_lexeme hc hl, he]
    exact ih (place_of_drop l.extra hon)
  | case5 column c t hc l hl tokens hts ih =>
    rw [hts] at ih
    rw [tokenizeFrom_lexeme hc hl, hts]
    intro k hk
    rcases List.mem_cons.1 hk with rfl | hk
    · refine ⟨⟨_, rfl, fun hn => ?_⟩, ?_⟩
      · rw [String.toList_ofList]
        exact numeral_of_lexeme hl hn
      · simpa using hon 0 (Nat.zero_lt_succ _)
    · exact ih (place_of_drop l.extra hon) k hk

omit [Arithmetic R] in
/-- A line is cut into tokens, or it is unreadable. -/
theorem ends_tokenize (n : Nat) (line : List Char) :
    Ends (Fault.IsAt (Place.IsOn n line)) (fun ts => ∀ k ∈ ts, k.IsCut (Place.IsOn n line))
      (tokenize (.int n) line : Except (Fault R) _) := by
  refine ends_tokenizeFrom fun k hk => ⟨1 + k, ?_, by omega, by omega⟩
  push_cast
  rfl

/-! ### Readers on such tokens -/

namespace TokenReader

variable {α β : Type}

/-- On tokens of a line the reader returns something that satisfies `P` and leaves tokens of the line,
or it fails at a place on the line. -/
def Ends (on : Place R → Prop) (P : α → Prop) (m : TokenReader R α) : Prop :=
  ∀ ts : List (Token R), (∀ t ∈ ts, t.IsCut on) → FeynmanTikz.Ends (Fault.IsAt on)
    (fun r : α × List (Token R) => P r.1 ∧ ∀ t ∈ r.2, t.IsCut on) (m.run ts)

namespace Ends

variable {P : α → Prop} {Q : β → Prop} {m : TokenReader R α}

omit [Arithmetic R]

theorem bind {f : α → TokenReader R β} (hm : Ends on P m) (hf : ∀ a, P a → Ends on Q (f a)) :
    Ends on Q (m >>= f) := by
  intro ts hts
  rw [StateT.run_bind]
  exact (hm ts hts).bind fun ⟨a, us⟩ ⟨ha, hus⟩ => hf a ha us hus

theorem pure {a : α} (h : P a) : Ends on P (pure a : TokenReader R α) := fun _ hts => ⟨h, hts⟩

theorem failAt {p : Place R} (hp : on p) (problem : ReadProblem R) :
    Ends on P (failAt p problem : TokenReader R α) := fun _ _ => isAt_of_place hp problem

theorem liftExcept {x : Except (Fault R) α} {a : α} (hx : x = .ok a) (ha : P a) :
    Ends on P (liftM x : TokenReader R α) := by
  intro ts hts
  rw [hx]
  exact ⟨ha, hts⟩

/-- This is the one reader that may fail at no place. -/
theorem expect (k : TokenKind) : Ends on (fun t => t.IsCut on ∧ t.kind = k) (expect k) := by
  intro ts hts
  cases ts with
  | nil => exact ⟨_, rfl, k, rfl⟩
  | cons t ts =>
    show FeynmanTikz.Ends _ _ ((if t.kind = k then (do set ts; return t : TokenReader R (Token R)) else
      TokenReader.failAt t.place (.unexpectedToken k t)).run (t :: ts))
    by_cases hk : t.kind = k
    · rw [if_pos hk]
      exact ⟨⟨hts t List.mem_cons_self, hk⟩, fun u hu => hts u (List.mem_cons_of_mem _ hu)⟩
    · rw [if_neg hk]
      exact isAt_of_place (hts t List.mem_cons_self).place _

theorem accept? (k : TokenKind) : Ends on (fun o => ∀ t ∈ o, t.IsCut on) (accept? k) := by
  intro ts hts
  cases ts with
  | nil => exact ⟨by simp, by simp⟩
  | cons t ts =>
    show FeynmanTikz.Ends _ _ ((if t.kind = k then
      (do set ts; return some t : TokenReader R (Option (Token R))) else return none).run (t :: ts))
    by_cases hk : t.kind = k
    · rw [if_pos hk]
      refine ⟨?_, fun u hu => hts u (List.mem_cons_of_mem _ hu)⟩
      rintro u ⟨⟩
      exact hts t List.mem_cons_self
    · rw [if_neg hk]
      exact ⟨by simp, hts⟩

theorem expectWord (word : String) : Ends on (fun _ => True) (expectWord word) := by
  refine (Ends.expect .word).bind fun t ht => ?_
  split
  · exact Ends.pure trivial
  · exact Ends.failAt ht.1.place _

theorem get : Ends on (fun ts => ∀ t ∈ ts, t.IsCut on) get := fun _ hts => ⟨hts, hts⟩

theorem set {us : List (Token R)} (hus : ∀ t ∈ us, t.IsCut on) :
    Ends on (fun _ => True) (set us : TokenReader R PUnit) := fun _ _ => ⟨trivial, hus⟩

end Ends

end TokenReader

/-! ### Statements of numbers -/

/-- A pair of numbers of type `R`. -/
def IsRealPair (v : Value R) : Prop := ∃ x y : R, v = Value.pair (.real x) (.real y)

/-- A number of type `R`. -/
def IsRealNumber (v : Value R) : Prop := ∃ x : R, v = .real x

def IsText (v : Value R) : Prop := ∃ t, v = .text t

/-- Positions and lengths of a statement are numbers of type `R`, and its options are a text. -/
def StatementBody.IsReal : StatementBody R → Prop
  | .point position radius => IsRealPair position ∧ IsRealNumber radius
  | .edge start finish control options =>
    IsRealPair start ∧ IsRealPair finish ∧ (∀ p ∈ control, IsRealPair p) ∧ IsText options
  | .ellipse center rx ry options =>
    IsRealPair center ∧ IsRealNumber rx ∧ IsRealNumber ry ∧ IsText options
  | .label position _ => IsRealPair position
  | .beginPicture | .endPicture => True

/-- A statement of numbers whose comment is a text. -/
structure Statement.IsReal (s : Statement R) : Prop where
  body : s.body.IsReal
  comment : IsText s.comment

omit [Arithmetic R] in
/-- The text of a token that may be missing. -/
theorem isText_of_isCut {o : Option (Token R)} (h : ∀ t ∈ o, t.IsCut on) :
    IsText (match o with
      | some t => t.text
      | none => .text "") := by
  cases o with
  | none => exact ⟨_, rfl⟩
  | some t =>
    obtain ⟨text, ht, -⟩ := (h t rfl).text
    exact ⟨text, ht⟩

namespace TokenReader.Ends

theorem number {t : Token R} (h : t.IsCut on ∧ t.kind = .number) :
    Ends on IsRealNumber (numberOf t) := by
  obtain ⟨⟨⟨text, htext, hn⟩, hplace⟩, hk⟩ := h
  obtain ⟨n, hn⟩ := hn hk
  have hread : readNumber t.text = .ok (n.toReal : R) := by
    unfold readNumber
    rw [htext]
    dsimp only
    rw [hn]
  refine (Ends.liftExcept (P := fun _ => True) hread trivial).bind fun x _ => ?_
  split
  · exact Ends.pure ⟨x, rfl⟩
  · exact Ends.failAt hplace _

/-- Whether a number of type `R` is finite can always be told. -/
theorem isFiniteValue (x : R) :
    Ends on (fun _ => True)
      (liftM (isFiniteValue (.real x) : Except (Fault R) Bool) : TokenReader R Bool) :=
  Ends.liftExcept (a := Arithmetic.isFinite x) rfl trivial

theorem coordinate : Ends on IsRealPair (readCoordinate standardCodec) := by
  refine (Ends.expect .leftParen).bind fun opening ho => ?_
  refine (Ends.expect .number).bind fun t ht => (Ends.number ht).bind fun x hx => ?_
  refine (Ends.expect .comma).bind fun _ _ => ?_
  refine (Ends.expect .number).bind fun u hu => (Ends.number hu).bind fun y hy => ?_
  obtain ⟨x, rfl⟩ := hx
  obtain ⟨y, rfl⟩ := hy
  refine (Ends.expect .rightParen).bind fun _ _ => ?_
  -- The position is a product in each coordinate, and so a pair of numbers of type `R`.
  refine (Ends.liftExcept (P := fun p => p = Value.pair (.real (x * Measure.scale))
    (.real (-y * Measure.scale))) rfl rfl).bind fun p hp => ?_
  subst hp
  refine (Ends.liftExcept (P := fun q => q = (.real (x * Measure.scale), .real (-y * Measure.scale)))
    rfl rfl).bind fun q hq => ?_
  subst hq
  refine (isFiniteValue _).bind fun b _ => ?_
  split
  · refine (isFiniteValue _).bind fun c _ => ?_
    split
    · exact Ends.pure ⟨_, _, rfl⟩
    · exact Ends.failAt ho.1.place _
  · exact Ends.failAt ho.1.place _

theorem length : Ends on IsRealNumber (readLength standardCodec) := by
  refine (Ends.expect .number).bind fun t ht => (Ends.number ht).bind fun x hx => ?_
  obtain ⟨x, rfl⟩ := hx
  refine (Ends.liftExcept (P := fun c => c = Codec.standard) (Codec.settings_given _) rfl).bind
    fun c hc => ?_
  subst hc
  refine (Ends.liftExcept (P := fun v => v = .real (x * Measure.scale)) rfl rfl).bind fun v hv => ?_
  subst hv
  refine (isFiniteValue _).bind fun b _ => ?_
  split
  · exact Ends.pure ⟨_, rfl⟩
  · exact Ends.failAt ht.1.place _

theorem point : Ends on StatementBody.IsReal (readPoint standardCodec) := by
  refine coordinate.bind fun p hp => (Ends.expectWord "circle").bind fun _ _ => ?_
  refine (Ends.expect .leftParen).bind fun _ _ => length.bind fun r hr => ?_
  exact (Ends.expect .rightParen).bind fun _ _ => Ends.pure ⟨hp, hr⟩

theorem ellipse {center options : Value R} (hc : IsRealPair center) (ho : IsText options) :
    Ends on StatementBody.IsReal (readEllipse standardCodec center options) := by
  refine (Ends.expect .leftParen).bind fun _ _ => length.bind fun rx hrx => ?_
  refine (Ends.expectWord "and").bind fun _ _ => length.bind fun ry hry => ?_
  exact (Ends.expect .rightParen).bind fun _ _ => Ends.pure ⟨hc, hrx, hry, ho⟩

theorem draw {command : Place R} (hcommand : on command) :
    Ends on StatementBody.IsReal (readDraw standardCodec command) := by
  refine (Ends.accept? .attributes).bind fun o ho => ?_
  have ho := isText_of_isCut ho
  dsimp only
  refine coordinate.bind fun start hs => (Ends.accept? .dashes).bind fun dashes _ => ?_
  -- A straight edge, a curve, or an ellipse.
  split
  · exact coordinate.bind fun finish hf => Ends.pure ⟨hs, hf, by simp, ho⟩
  refine (Ends.accept? .dots).bind fun dots _ => ?_
  split
  · refine (Ends.expectWord "controls").bind fun _ _ => coordinate.bind fun control hc => ?_
    refine (Ends.expect .dots).bind fun _ _ => coordinate.bind fun finish hf => ?_
    exact Ends.pure ⟨hs, hf, by rintro p ⟨⟩; exact hc, ho⟩
  refine Ends.get.bind fun ts hts => ?_
  split
  · exact Ends.failAt hcommand _
  · rename_i t rest
    split
    · refine (Ends.set fun u hu => hts u (List.mem_cons_of_mem _ hu)).bind fun _ _ => ?_
      exact ellipse hs ho
    · exact Ends.failAt (hts t List.mem_cons_self).place _

theorem label : Ends on StatementBody.IsReal (readLabel standardCodec) := by
  refine (Ends.expectWord "at").bind fun _ _ => coordinate.bind fun p hp => ?_
  exact (Ends.expect .group).bind fun _ _ => Ends.pure hp

omit [Arithmetic R] in
theorem environment {body : StatementBody R} (hb : body.IsReal) :
    Ends on StatementBody.IsReal (readEnvironment body) := by
  refine (Ends.expect .group).bind fun group hg => ?_
  obtain ⟨⟨⟨text, htext, -⟩, hplace⟩, -⟩ := hg
  have hname : group.text.characters = .ok text.toList := by rw [htext]; rfl
  refine (Ends.liftExcept (P := fun _ => True) hname trivial).bind fun name _ => ?_
  split
  · exact Ends.failAt hplace _
  · split
    · exact (Ends.accept? .attributes).bind fun _ _ => Ends.pure hb
    · exact Ends.pure hb

theorem body {command : Token R} (hcommand : on command.place) :
    Ends on StatementBody.IsReal (readBody standardCodec command) := by
  unfold readBody
  split
  · exact point
  · exact draw hcommand
  · exact label
  · exact environment trivial
  · exact environment trivial
  · exact Ends.failAt hcommand _

omit [Arithmetic R] in
/-- After a statement a comment may follow, and nothing else. -/
theorem closing {place : Place R} (hplace : on place) {body : StatementBody R} (hb : body.IsReal) :
    Ends on (fun s : Statement R => s.IsReal ∧ on s.place) (do
      let last ← TokenReader.accept? .comment
      match ← MonadState.get with
      | [] => return ⟨place, body, match last with
        | some t => t.text
        | none => .text ""⟩
      | t :: _ => TokenReader.failAt t.place (.trailingToken t.text)) := by
  refine (Ends.accept? .comment).bind fun last hl => Ends.get.bind fun ts hts => ?_
  split
  · exact Ends.pure ⟨⟨hb, isText_of_isCut hl⟩, hplace⟩
  · exact Ends.failAt (hts _ List.mem_cons_self).place _

theorem whole : Ends on (fun s : Statement R => s.IsReal ∧ on s.place) (readWhole standardCodec) := by
  refine (Ends.expect .command).bind fun command hc => ?_
  refine (body hc.1.place).bind fun b hb => ?_
  dsimp only
  split
  · exact (Ends.expect .semicolon).bind fun _ _ => closing hc.1.place hb
  · exact closing hc.1.place hb

end TokenReader.Ends

/-! ### Whole lines -/

/-- The statement on a line, or nothing if there is none. -/
def lineStatement (codec : Given R (Codec R)) (n : Nat) (line : List Char) :
    Except (Fault R) (Option (Statement R)) := do
  readStatement codec (← tokenize (.int n) line)

/-- On the tokens of a line there is nothing, a statement of numbers, or a place where reading fails. -/
theorem ends_readStatement {ts : List (Token R)} (hts : ∀ t ∈ ts, t.IsCut on) :
    Ends (Fault.IsAt on) (fun o => ∀ s ∈ o, s.IsReal ∧ on s.place) (readStatement standardCodec ts) := by
  unfold readStatement
  split
  · exact fun s hs => by cases hs
  split
  · exact fun s hs => by cases hs
  · refine Ends.bind (P := fun s => s.IsReal ∧ on s.place) ?_ fun s hs => ?_
    · rw [StateT.run'_eq]
      exact (TokenReader.Ends.whole _ hts).map fun r hr => hr.1
    · rintro s' ⟨⟩
      exact hs

/-- A line is read as a statement of numbers on it, or as none, or it is unreadable. -/
theorem ends_lineStatement (n : Nat) (line : List Char) : Ends (Fault.IsAt (Place.IsOn n line))
    (fun o => ∀ s ∈ o, s.IsReal ∧ s.place.IsOn n line) (lineStatement (R := R) standardCodec n line) :=
  (ends_tokenize n line).bind fun _ hts => ends_readStatement hts

end FeynmanTikz
