/-
Cutting a line into tokens, piece by piece.

`Lexes R t ps` says that a text is cut into tokens of the given kinds and texts, on whatever line and
at whatever column it stands, and `Spoils R t` that it cannot be cut into tokens.  The tokens of a
written line are found from its end to its start.

* `tokenizeFrom_separator`, `tokenizeFrom_lexeme`, `tokenizeFrom_error`: one step of the lexer, and
  `tokenizeFrom_induction`: whatever each step keeps is true of a line that is cut into tokens,
* `Starts.command`, `Starts.word`, `Starts.numeral`, `Starts.group`, `Starts.attributes` and their
  companions: the lexemes a line can start with,
* `Lexes.before` and `Spoils.before`: what a lexeme changes,
* `Spoils.of_unterminated`: an open group spoils the line,
* `IsLexeme`, `isLexeme_of_lexeme`: everything a token can be,
* `exists_lexeme`: every token of a line is a lexeme; from it `mem_of_group` and `passes_of_attributes`,
  what is known of the text of a group and of an option list,
* `offset_le_of_lexeme`, `eq_nil_of_comment`: where a line can be at fault, and where it ends.
-/
import FeynmanTikz.Proofs.Number.Lexemes
import FeynmanTikz.Proofs.Outcome
import FeynmanTikz.Proofs.Tikz.Bracket
import FeynmanTikz.Tikz.Lexer

namespace FeynmanTikz

/-- What can be seen of a token apart from its place. -/
def Token.seen {R : Type} (t : Token R) : TokenKind × Value R := (t.kind, t.text)

/-- A kind of token with a text. -/
def seenAs {R : Type} (p : TokenKind × List Char) : TokenKind × Value R :=
  (p.1, .text (String.ofList p.2))

/-- A text is cut into tokens of the given kinds and texts. -/
def Lexes (R : Type) (t : List Char) (ps : List (TokenKind × List Char)) : Prop :=
  ∀ (line : Value R) (column : Int), ∃ ts, tokenizeFrom line column t = .ok ts ∧
    ts.map Token.seen = ps.map seenAs

variable {R : Type}

section

variable {line : Value R} {column : Int} {c : Char} {t : List Char}

@[simp] theorem tokenizeFrom_nil : tokenizeFrom line column [] = .ok [] := by
  rw [tokenizeFrom]

theorem tokenizeFrom_separator (hc : isSeparator c = true) :
    tokenizeFrom line column (c :: t) = tokenizeFrom line (column + 1) t := by
  rw [tokenizeFrom, if_pos hc]

theorem tokenizeFrom_lexeme (hc : ¬isSeparator c = true) {l : Lexeme} (hl : lexeme (R := R) c t = .ok l) :
    tokenizeFrom line column (c :: t) =
      (tokenizeFrom line (column + 1 + l.extra) (t.drop l.extra)).map
        (⟨l.kind, .text (String.ofList l.text), line, .int column⟩ :: ·) := by
  rw [tokenizeFrom, if_neg hc, hl]
  dsimp only
  cases tokenizeFrom line (column + 1 + l.extra) (t.drop l.extra) <;> rfl

theorem tokenizeFrom_error (hc : ¬isSeparator c = true) {problem : ReadProblem R} {offset : Nat}
    (hl : lexeme c t = .error (problem, offset)) : tokenizeFrom line column (c :: t) =
      .error (.unreadable { place := some ⟨line, .int (column + offset)⟩, problem }) := by
  rw [tokenizeFrom, if_neg hc, hl]

end

/-- What is true of a line that is cut into tokens, if it stays true with a separator or a lexeme in
front. -/
@[elab_as_elim]
theorem tokenizeFrom_induction {line : Value R}
    {motive : (column : Int) → (t : List Char) → (ts : List (Token R)) →
      tokenizeFrom line column t = .ok ts → Prop}
    (nil : ∀ column, motive column [] [] tokenizeFrom_nil)
    (separator : ∀ {column c t ts} (hc : isSeparator c = true)
      (h : tokenizeFrom line (column + 1) t = .ok ts), motive (column + 1) t ts h →
        motive column (c :: t) ts ((tokenizeFrom_separator hc).trans h))
    (lexeme : ∀ {column c t l ts} (hc : ¬isSeparator c = true) (hl : lexeme (R := R) c t = .ok l)
      (h : tokenizeFrom line (column + 1 + l.extra) (t.drop l.extra) = .ok ts), motive _ _ ts h →
        motive column (c :: t) (⟨l.kind, .text (String.ofList l.text), line, .int column⟩ :: ts)
          ((tokenizeFrom_lexeme hc hl).trans (congrArg (Except.map _) h)))
    {column : Int} {t : List Char} {ts : List (Token R)} (h : tokenizeFrom line column t = .ok ts) :
    motive column t ts h := by
  induction column, t using tokenizeFrom.induct line generalizing ts with
  | case1 column =>
    cases tokenizeFrom_nil.symm.trans h
    exact nil column
  | case2 column c t hc ih => exact separator hc _ (ih ((tokenizeFrom_separator hc).symm.trans h))
  | case3 column c t hc problem offset hl => cases (tokenizeFrom_error hc hl).symm.trans h
  | case4 column c t hc l hl e he ih =>
    rw [tokenizeFrom_lexeme hc hl, he] at h
    cases h
  | case5 column c t hc l hl tokens hts ih =>
    have hcons := (tokenizeFrom_lexeme hc hl).symm.trans h
    rw [hts] at hcons
    cases hcons
    exact lexeme hc hl hts (ih hts)

/-- A text starts with a lexeme, after which some text is left. -/
structure Starts (R : Type) (t : List Char) (kind : TokenKind) (text rest : List Char) : Prop where
  exists_cons : ∃ c more, t = c :: more ∧ isSeparator c = false ∧ ∃ extra,
    lexeme (R := R) c more = .ok ⟨kind, text, extra⟩ ∧ more.drop extra = rest

namespace Starts

theorem of_lexeme {c : Char} {more rest : List Char} {l : Lexeme} (hc : isSeparator c = false)
    (hl : lexeme (R := R) c more = .ok l) (hr : more.drop l.extra = rest) :
    Starts R (c :: more) l.kind l.text rest :=
  ⟨c, more, rfl, hc, l.extra, hl, hr⟩

theorem leftParen (t : List Char) : Starts R ('(' :: t) .leftParen ['('] t :=
  of_lexeme (l := ⟨.leftParen, ['('], 0⟩) rfl rfl rfl

theorem rightParen (t : List Char) : Starts R (')' :: t) .rightParen [')'] t :=
  of_lexeme (l := ⟨.rightParen, [')'], 0⟩) rfl rfl rfl

theorem comma (t : List Char) : Starts R (',' :: t) .comma [','] t :=
  of_lexeme (l := ⟨.comma, [','], 0⟩) rfl rfl rfl

theorem semicolon (t : List Char) : Starts R (';' :: t) .semicolon [';'] t :=
  of_lexeme (l := ⟨.semicolon, [';'], 0⟩) rfl rfl rfl

theorem dashes (t : List Char) : Starts R ('-' :: '-' :: t) .dashes ['-', '-'] t :=
  of_lexeme (l := ⟨.dashes, ['-', '-'], 1⟩) rfl rfl rfl

theorem dots (t : List Char) : Starts R ('.' :: '.' :: t) .dots ['.', '.'] t :=
  of_lexeme (l := ⟨.dots, ['.', '.'], 1⟩) rfl rfl rfl

/-- A comment takes the rest of the line. -/
theorem comment (t : List Char) : Starts R ('%' :: t) .comment (trim t) [] :=
  of_lexeme (l := ⟨.comment, trim t, t.length⟩) rfl rfl List.drop_length

/-- What stands right after letters, if that is no letter, ends them. -/
theorem takeWhile_letters {name rest : List Char} (hn : ∀ c ∈ name, isLetter c = true)
    (hr : ∀ c, rest.head? = some c → isLetter c = false) :
    (name ++ rest).takeWhile isLetter = name := by
  rw [List.takeWhile_append_of_pos hn]
  cases rest with
  | nil => simp
  | cons c rest => simp [hr c rfl]

theorem command {name t : List Char} (hn : ∀ c ∈ name, isLetter c = true) (hne : name ≠ [])
    (ht : ∀ c, t.head? = some c → isLetter c = false) :
    Starts R ('\\' :: (name ++ t)) .command name t := by
  refine of_lexeme (l := ⟨.command, name, name.length⟩) rfl ?_ List.drop_left
  unfold FeynmanTikz.lexeme
  rw [if_neg (by decide), if_pos rfl, takeWhile_letters hn ht]
  simp [hne]

theorem toNat_of_isLetter {c : Char} (hc : isLetter c = true) :
    65 ≤ c.toNat ∧ c.toNat ≤ 90 ∨ 97 ≤ c.toNat ∧ c.toNat ≤ 122 := by
  change (decide ('A'.val ≤ c.val ∧ c.val ≤ 'Z'.val) ||
    (decide ('a'.val ≤ c.val) && decide (c.val ≤ 'z'.val))) = true at hc
  simp only [Bool.or_eq_true, Bool.and_eq_true, decide_eq_true_eq] at hc
  rcases hc with h | h
  · exact .inl ⟨UInt32.le_iff_toNat_le.1 h.1, UInt32.le_iff_toNat_le.1 h.2⟩
  · exact .inr ⟨UInt32.le_iff_toNat_le.1 h.1, UInt32.le_iff_toNat_le.1 h.2⟩

theorem isDecimalDigit_of_isLetter {c : Char} (hc : isLetter c = true) :
    isDecimalDigit c = false := by
  have := toNat_of_isLetter hc
  simp only [isDecimalDigit, decimalDigit?, Option.isSome_map, List.find?_isSome, decimalZeros,
    Bool.eq_false_iff, ne_eq, List.mem_cons, List.not_mem_nil, or_false, Bool.and_eq_true,
    decide_eq_true_eq]
  rintro ⟨z, hz, hlo, hhi⟩
  omega

/-- Letters are a word, whatever follows them. -/
theorem word {w t : List Char} (hw : w ≠ []) (hn : ∀ d ∈ w, isLetter d = true)
    (ht : ∀ d, t.head? = some d → isLetter d = false) : Starts R (w ++ t) .word w t := by
  obtain ⟨c, more, rfl⟩ := List.exists_cons_of_ne_nil hw
  rw [List.cons_append]
  have hc : isLetter c = true := hn c List.mem_cons_self
  have hne (d : Char) (hd : isLetter d = false) : c ≠ d := by
    rintro rfl
    rw [hc] at hd
    cases hd
  refine of_lexeme (l := ⟨.word, c :: more, more.length⟩) ?_ ?_ List.drop_left
  · simp [isSeparator, hne ' ' rfl, hne '\t' rfl, hne '\r' rfl]
  · -- Numerals come before words, so the letter must not start one.
    have hnum : numeralLexeme? (c :: (more ++ t)) = none :=
      numeralLexeme?_eq_none (isDecimalDigit_of_isLetter hc)
        (by simp [hne '+' rfl, hne '-' rfl, hne '.' rfl])
    unfold FeynmanTikz.lexeme
    rw [if_neg (hne '%' rfl), if_neg (hne '\\' rfl), if_neg (hne '[' rfl),
      if_neg (hne '\x7b' rfl), if_neg (fun h => hne '-' rfl h.1), if_neg (fun h => hne '.' rfl h.1),
      hnum]
    dsimp only
    rw [if_pos hc, takeWhile_letters (fun d hd => hn d (List.mem_cons_of_mem _ hd)) ht]

/-- Whatever is cut off as a numeral is a number, as neither a bracket nor two dashes or dots are. -/
theorem number {text t : List Char} (h : numeralLexeme? (text ++ t) = some (text, t)) :
    Starts R (text ++ t) .number text t := by
  obtain ⟨sign, m, tail, hn⟩ := isNumeral_of_lexeme h
  obtain ⟨c, more, rfl⟩ := List.exists_cons_of_ne_nil hn.ne_nil
  rw [List.cons_append] at h ⊢
  have hne {u : List Char} (hu : numeralLexeme? u = none) : c :: (more ++ t) ≠ u := by
    rintro rfl
    rw [hu] at h
    cases h
  have hother (d : Char) (hd : isDecimalDigit d = false) (hd' : d ∉ ['+', '-', '.']) : c ≠ d := by
    rintro rfl
    exact hne (numeralLexeme?_eq_none hd hd') rfl
  have htwice {d : Char} (hd : ∀ u, numeralLexeme? (d :: d :: u) = none) :
      ¬(c = d ∧ (more ++ t).head? = some d) := by
    rintro ⟨rfl, hm⟩
    obtain ⟨u, hu⟩ := List.head?_eq_some_iff.1 hm
    exact hne (hd u) (by rw [hu])
  refine of_lexeme (l := ⟨.number, c :: more, (c :: more).length - 1⟩) ?_ ?_ List.drop_left
  · simp [isSeparator, hother ' ' (by decide) (by decide), hother '\t' (by decide) (by decide),
      hother '\r' (by decide) (by decide)]
  · unfold FeynmanTikz.lexeme
    rw [if_neg (hother '%' (by decide) (by decide)), if_neg (hother '\\' (by decide) (by decide)),
      if_neg (hother '[' (by decide) (by decide)), if_neg (hother '\x7b' (by decide) (by decide)),
      if_neg (htwice numeralLexeme?_dashes), if_neg (htwice numeralLexeme?_dots), h]

theorem numeral (h : Hundredths) {t : List Char} (ht : EndsNumeral t) :
    Starts R (h.text ++ t) .number h.text t := number (h.numeralLexeme?_text ht)

/-- A group in braces. -/
theorem group {content : List Char} (hc : passes [.brace] content = some [.brace]) (t : List Char) :
    Starts R ('\x7b' :: (content ++ '\x7d' :: t)) .group content t := by
  refine of_lexeme (l := ⟨.group, content, content.length + 1⟩) rfl ?_ ?_
  · show bracketLexeme .brace (content ++ Bracket.brace.closing :: t) = _
    unfold bracketLexeme
    rw [scanClosing_closed hc]
  · rw [List.drop_append, List.drop_of_length_le (Nat.le_succ _)]
    simp

/-- An option list in square brackets. -/
theorem attributes {content : List Char} (hc : passes [.square] content = some [.square])
    (t : List Char) : Starts R ('[' :: (content ++ ']' :: t)) .attributes content t := by
  refine of_lexeme (l := ⟨.attributes, content, content.length + 1⟩) rfl ?_ ?_
  · show bracketLexeme .square (content ++ Bracket.square.closing :: t) = _
    unfold bracketLexeme
    rw [scanClosing_closed hc]
  · rw [List.drop_append, List.drop_of_length_le (Nat.le_succ _)]
    simp

end Starts

namespace Lexes

theorem nil : Lexes R [] [] := by
  intro line column
  exact ⟨[], tokenizeFrom_nil, rfl⟩

theorem separator {c : Char} (hc : isSeparator c = true) {t : List Char}
    {ps : List (TokenKind × List Char)} (h : Lexes R t ps) : Lexes R (c :: t) ps := by
  intro line column
  obtain ⟨ts, hts, hs⟩ := h line (column + 1)
  exact ⟨ts, (tokenizeFrom_separator hc).trans hts, hs⟩

theorem space {t : List Char} {ps : List (TokenKind × List Char)} (h : Lexes R t ps) :
    Lexes R (' ' :: t) ps := h.separator rfl

/-- A lexeme in front of what is cut into tokens. -/
theorem before {t text rest : List Char} {kind : TokenKind} {ps : List (TokenKind × List Char)}
    (h : Lexes R rest ps) (hs : Starts R t kind text rest) : Lexes R t ((kind, text) :: ps) := by
  intro line column
  obtain ⟨c, more, rfl, hc, extra, hl, rfl⟩ := hs
  obtain ⟨ts, hts, hs⟩ := h line (column + 1 + extra)
  refine ⟨⟨kind, .text (String.ofList text), line, .int column⟩ :: ts, ?_, ?_⟩
  · rw [tokenizeFrom_lexeme (Bool.eq_false_iff.1 hc) hl, hts]
    rfl
  · rw [List.map_cons, List.map_cons, hs]
    rfl

end Lexes

/-- A text cannot be cut into tokens. -/
def Spoils (R : Type) (t : List Char) : Prop :=
  ∀ (line : Value R) (column : Int), ∃ f, tokenizeFrom line column t = .error f

namespace Spoils

theorem space {t : List Char} (h : Spoils R t) : Spoils R (' ' :: t) := by
  intro line column
  obtain ⟨f, hf⟩ := h line (column + 1)
  exact ⟨f, (tokenizeFrom_separator rfl).trans hf⟩

/-- A lexeme in front of what cannot be cut into tokens. -/
theorem before {t text rest : List Char} {kind : TokenKind} (h : Spoils R rest)
    (hs : Starts R t kind text rest) : Spoils R t := by
  intro line column
  obtain ⟨c, more, rfl, hc, extra, hl, rfl⟩ := hs
  obtain ⟨f, hf⟩ := h line (column + 1 + extra)
  refine ⟨f, ?_⟩
  rw [tokenizeFrom_lexeme (Bool.eq_false_iff.1 hc) hl, hf]
  rfl

/-- An open group spoils the line. -/
theorem of_unterminated {t : List Char} (ht : scanClosing .brace [] t = .unterminated) :
    Spoils R ('\x7b' :: t) := by
  intro line column
  have hl : lexeme (R := R) '\x7b' t = .error (.unterminatedBracket '\x7b', 0) := by
    show bracketLexeme .brace t = _
    unfold bracketLexeme
    rw [ht]
    rfl
  exact ⟨_, tokenizeFrom_error (by decide) hl⟩

end Spoils

/-! ### What a token can be -/

/-- What the token that starts with `c` can be, and how it is cut from what follows. -/
inductive IsLexeme (c : Char) (rest : List Char) : Lexeme → Prop
  | comment (hc : c = '%') : IsLexeme c rest ⟨.comment, trim rest, rest.length⟩
  | command {name : List Char} (hc : c = '\\') (hn : rest.takeWhile isLetter = name)
    (hne : name ≠ []) : IsLexeme c rest ⟨.command, name, name.length⟩
  | attributes {content more : List Char} (hc : c = '[')
    (h : scanClosing .square [] rest = .closed content more) :
    IsLexeme c rest ⟨.attributes, content, content.length + 1⟩
  | group {content more : List Char} (hc : c = '\x7b')
    (h : scanClosing .brace [] rest = .closed content more) :
    IsLexeme c rest ⟨.group, content, content.length + 1⟩
  | dashes (hc : c = '-') (h : rest.head? = some '-') : IsLexeme c rest ⟨.dashes, ['-', '-'], 1⟩
  | dots (hc : c = '.') (h : rest.head? = some '.') : IsLexeme c rest ⟨.dots, ['.', '.'], 1⟩
  | number {text more : List Char} (h : numeralLexeme? (c :: rest) = some (text, more)) :
    IsLexeme c rest ⟨.number, text, text.length - 1⟩
  | word {more : List Char} (hc : isLetter c = true) (hm : rest.takeWhile isLetter = more) :
    IsLexeme c rest ⟨.word, c :: more, more.length⟩
  | symbol {kind : TokenKind} (h : symbolKind? c = some kind) : IsLexeme c rest ⟨kind, [c], 0⟩

/-- The kind of token that a bracket opens. -/
def Bracket.kind : Bracket → TokenKind
  | .square => .attributes
  | .brace => .group

theorem closed_of_bracketLexeme {b : Bracket} {rest : List Char} {l : Lexeme}
    (h : bracketLexeme (R := R) b rest = .ok l) : ∃ content more,
      scanClosing b [] rest = .closed content more ∧ l = ⟨b.kind, content, content.length + 1⟩ := by
  unfold bracketLexeme at h
  split at h
  · rename_i content more hs
    cases h
    exact ⟨content, more, hs, by cases b <;> rfl⟩
  · cases h
  · cases h

theorem isLexeme_of_lexeme {c : Char} {rest : List Char} {l : Lexeme}
    (h : lexeme (R := R) c rest = .ok l) : IsLexeme c rest l := by
  unfold lexeme at h
  split at h
  · rename_i hc
    cases h
    exact .comment hc
  split at h
  · rename_i hc
    dsimp only at h
    split at h
    · cases h
    · rename_i hne
      cases h
      exact .command hc rfl (by simpa using hne)
  split at h
  · rename_i hc
    obtain ⟨content, more, hs, rfl⟩ := closed_of_bracketLexeme h
    exact .attributes hc hs
  split at h
  · rename_i hc
    obtain ⟨content, more, hs, rfl⟩ := closed_of_bracketLexeme h
    exact .group hc hs
  split at h
  · rename_i hc
    cases h
    exact .dashes hc.1 hc.2
  split at h
  · rename_i hc
    cases h
    exact .dots hc.1 hc.2
  split at h
  · rename_i hn
    cases h
    exact .number hn
  split at h
  · rename_i hc
    cases h
    exact .word hc rfl
  split at h
  · rename_i hk
    cases h
    exact .symbol hk
  · cases h

/-- A single character is none of the longer tokens. -/
theorem kind_of_symbol {c : Char} {kind : TokenKind} (h : symbolKind? c = some kind) :
    kind ≠ .group ∧ kind ≠ .attributes ∧ kind ≠ .number ∧ kind ≠ .comment := by
  unfold symbolKind? at h
  split at h <;> cases h <;> decide

/-- What is wrong with a lexeme is wrong somewhere in the text. -/
theorem offset_le_of_lexeme {c : Char} {rest : List Char} {problem : ReadProblem R} {offset : Nat}
    (h : lexeme c rest = .error (problem, offset)) : offset ≤ rest.length := by
  have hbracket {b : Bracket} (h : bracketLexeme b rest = .error (problem, offset)) :
      offset ≤ rest.length := by
    unfold bracketLexeme at h
    split at h
    · cases h
    · rename_i hs
      cases h
      exact offset_lt_of_scanClosing hs
    · cases h
      exact Nat.zero_le _
  unfold lexeme at h
  split at h
  · cases h
  split at h
  · dsimp only at h
    split at h
    · cases h
      exact Nat.zero_le _
    · cases h
  split at h
  · exact hbracket h
  split at h
  · exact hbracket h
  split at h
  · cases h
  split at h
  · cases h
  split at h
  · cases h
  split at h
  · cases h
  split at h
  · cases h
  · cases h
    exact Nat.zero_le _

/-- A comment starts with a percent sign and takes all that is left. -/
theorem eq_of_comment {c : Char} {rest : List Char} {l : Lexeme}
    (h : lexeme (R := R) c rest = .ok l) (hc : l.kind = .comment) :
    c = '%' ∧ l = ⟨.comment, trim rest, rest.length⟩ := by
  cases isLexeme_of_lexeme h with
  | comment hp => exact ⟨hp, rfl⟩
  | symbol hk => exact absurd hc (kind_of_symbol hk).2.2.2
  | command | attributes | group | dashes | dots | number | word => cases hc

theorem drop_of_comment {c : Char} {rest : List Char} {l : Lexeme}
    (h : lexeme (R := R) c rest = .ok l) (hc : l.kind = .comment) : rest.drop l.extra = [] := by
  obtain ⟨-, rfl⟩ := eq_of_comment h hc
  exact List.drop_length

/-- Nothing follows a comment on its line. -/
theorem eq_nil_of_comment {line : Value R} {column : Int} {t : List Char} {k : Token R}
    {ks : List (Token R)} (h : tokenizeFrom line column t = .ok (k :: ks)) (hk : k.kind = .comment) :
    ks = [] := by
  generalize hts : k :: ks = ts at h
  induction h using tokenizeFrom_induction with
  | nil column => cases hts
  | separator hc h ih => exact ih hts
  | lexeme hc hl hrest =>
    cases hts
    rw [drop_of_comment hl hk, tokenizeFrom_nil] at hrest
    exact (Except.ok.inj hrest).symm

/-- Every token of a line is a lexeme that starts somewhere on the line. -/
theorem exists_lexeme {line : Value R} {column : Int} {t : List Char} {ts : List (Token R)}
    (h : tokenizeFrom line column t = .ok ts) {k : Token R} (hk : k ∈ ts) :
    ∃ c rest l, lexeme (R := R) c rest = .ok l ∧ k.kind = l.kind ∧
      k.text = .text (String.ofList l.text) ∧ ∀ d ∈ rest, d ∈ t := by
  induction h using tokenizeFrom_induction with
  | nil column => cases hk
  | separator hc h ih =>
    obtain ⟨c, rest, l, hl, hkind, htext, hm⟩ := ih hk
    exact ⟨c, rest, l, hl, hkind, htext, fun d hd => List.mem_cons_of_mem _ (hm d hd)⟩
  | @lexeme column c t l ts hc hl h ih =>
    rcases List.mem_cons.1 hk with rfl | hk
    · exact ⟨c, t, l, hl, rfl, rfl, fun d hd => List.mem_cons_of_mem _ hd⟩
    · obtain ⟨c', rest, l', hl', hkind, htext, hm⟩ := ih hk
      exact ⟨c', rest, l', hl', hkind, htext,
        fun d hd => List.mem_cons_of_mem _ (List.mem_of_mem_drop (hm d hd))⟩

theorem mem_of_lexeme {c : Char} {rest : List Char} {l : Lexeme}
    (h : lexeme (R := R) c rest = .ok l) (hg : l.kind = .group) : ∀ d ∈ l.text, d ∈ rest := by
  cases isLexeme_of_lexeme h with
  | group _ hs =>
    rw [eq_of_scanClosing hs]
    exact fun d hd => List.mem_append_left _ hd
  | symbol hk => exact absurd hg (kind_of_symbol hk).1
  | comment | command | attributes | dashes | dots | number | word => cases hg

/-- The text of a group consists of characters of the line. -/
theorem mem_of_group {line : Value R} {column : Int} {t : List Char} {ts : List (Token R)}
    (h : tokenizeFrom line column t = .ok ts) {k : Token R} (hk : k ∈ ts) (hg : k.kind = .group) :
    ∃ content, k.text = .text (String.ofList content) ∧ ∀ c ∈ content, c ∈ t := by
  obtain ⟨c, rest, l, hl, hkind, htext, hm⟩ := exists_lexeme h hk
  exact ⟨l.text, htext, fun d hd => hm d (mem_of_lexeme hl (hkind ▸ hg) d hd)⟩

/-- The text of an option list leaves its own bracket open and no other. -/
theorem passes_of_attributes {line : Value R} {column : Int} {t : List Char} {ts : List (Token R)}
    (h : tokenizeFrom line column t = .ok ts) {k : Token R} (hk : k ∈ ts)
    (ha : k.kind = .attributes) :
    ∃ v, k.text = .text (String.ofList v) ∧ passes [.square] v = some [.square] := by
  obtain ⟨c, rest, l, hl, hkind, htext, -⟩ := exists_lexeme h hk
  refine ⟨l.text, htext, ?_⟩
  rw [hkind] at ha
  cases isLexeme_of_lexeme hl with
  | attributes _ hs => exact passes_of_closed_alone hs
  | symbol hk => exact absurd ha (kind_of_symbol hk).2.1
  | comment | command | group | dashes | dots | number | word => cases ha

end FeynmanTikz
