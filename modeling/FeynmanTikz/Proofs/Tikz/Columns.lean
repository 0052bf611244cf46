/-
Where the tokens of a line stand.

The text of a token leaves out its backslash or its brackets, and that of a comment the blanks around
it.  Written out again as it was, each token is found in the line at its column, and what lies between
the tokens are separators.  So cutting a line into tokens loses nothing and invents nothing.

* `Token.start`, `Token.spelling`, `Token.finish`: where a token stands in a line, and how it is written
  there,
* `Accounts line s i ts`: the tokens account for every character of `s` from the `i`-th on,
* `spelling_of_lexeme`: a lexeme is written as the characters it has been cut from; from it
  `Accounts.separator` and `Accounts.lexeme`, one step of the lexer,
* `accounts_of_tokenize`: the tokens of a line account for the whole line.

Design notes.
* Columns count from one, `start` from nought.
* A comment is only known by the trimmed rest of the line, so how it is written is looked up in the line.
-/
import FeynmanTikz.Proofs.Number.Exact
import FeynmanTikz.Proofs.Number.Lexemes
import FeynmanTikz.Proofs.Tikz.Tokens

namespace FeynmanTikz

variable {R : Type}

namespace Token

/-- How many characters of its line stand before a token. -/
def start (t : Token R) : Nat := (t.place.columnNumber - 1).toNat

/-- The characters of a token's text. -/
def characters (t : Token R) : List Char :=
  match t.text with
  | .text text => text.toList
  | _ => []

/-- How a token of the line `s` is written there. -/
def spelling (s : List Char) (t : Token R) : List Char :=
  match t.kind with
  | .command => '\\' :: t.characters
  | .attributes => '[' :: (t.characters ++ [']'])
  | .group => '\x7b' :: (t.characters ++ ['\x7d'])
  | .comment => s.drop t.start
  | _ => t.characters

/-- How many characters of the line `s` stand before the end of a token. -/
def finish (s : List Char) (t : Token R) : Nat := t.start + (t.spelling s).length

end Token

/-- The tokens account for every character of `s` from the `i`-th on. -/
structure Accounts (line : Value R) (s : List Char) (i : Nat) (ts : List (Token R)) : Prop where
  /-- Every token stands on the line at its column. -/
  placed : ∀ t ∈ ts, i ≤ t.start ∧ t.place = ⟨line, .int (t.start + 1)⟩ ∧
    t.text = .text (String.ofList t.characters) ∧ t.start < t.finish s ∧
    t.spelling s <+: s.drop t.start
  /-- A token ends before those after it start. -/
  ordered : ts.Pairwise fun a b => a.finish s ≤ b.start
  /-- Every other character is a space, a tab or a carriage return. -/
  covered : ∀ j c, i ≤ j → s[j]? = some c →
    (∃ t ∈ ts, t.start ≤ j ∧ j < t.finish s) ∨ c = ' ' ∨ c = '\t' ∨ c = '\r'
  /-- A comment is the last token, and its text is the trimmed rest of the line. -/
  comment : ∀ as t bs, ts = as ++ t :: bs → t.kind = .comment → bs = [] ∧
    ∃ rest, s.drop t.start = '%' :: rest ∧ t.characters = trim rest

/-! ### One lexeme -/

/-- The token that a lexeme becomes after `i` characters of a line. -/
def Lexeme.token (l : Lexeme) (line : Value R) (i : Nat) : Token R :=
  ⟨l.kind, .text (String.ofList l.text), line, .int (i + 1)⟩

@[simp] theorem Lexeme.start_token (l : Lexeme) (line : Value R) (i : Nat) :
    (l.token line i).start = i := by
  show ((i : Int) + 1 - 1).toNat = i
  omega

@[simp] theorem Lexeme.characters_token (l : Lexeme) (line : Value R) (i : Nat) :
    (l.token line i).characters = l.text := by
  simp [token, Token.characters]

/-- Apart from the backslash and the brackets, a token is written as its text. -/
theorem spelling_of_kind {t : Token R} (s : List Char)
    (hk : t.kind ∉ [.command, .attributes, .group, .comment]) : t.spelling s = t.characters := by
  unfold Token.spelling
  split <;> simp_all

theorem take_initial {rest text : List Char} (h : text <+: rest) :
    rest.take text.length = text ∧ text.length ≤ rest.length :=
  ⟨(List.prefix_iff_eq_take.1 h).symm, h.length_le⟩

/-- A bracket takes its content and its partner with it. -/
theorem take_of_scanClosing {b : Bracket} {rest content more : List Char}
    (h : scanClosing b [] rest = .closed content more) :
    rest.take (content.length + 1) = content ++ [b.closing] ∧ content.length + 1 ≤ rest.length := by
  have hprefix : content ++ [b.closing] <+: rest := ⟨more, by simp [eq_of_scanClosing h]⟩
  simpa using take_initial hprefix

/-- A lexeme is written as the characters it has been cut from. -/
theorem spelling_of_lexeme (line : Value R) (pre : List Char) {c : Char} {rest : List Char} {l : Lexeme}
    (h : lexeme (R := R) c rest = .ok l) :
    (l.token line pre.length).spelling (pre ++ c :: rest) = c :: rest.take l.extra ∧
      l.extra ≤ rest.length := by
  cases isLexeme_of_lexeme h with
  | comment hc =>
    refine ⟨?_, Nat.le_refl _⟩
    show (pre ++ c :: rest).drop (Token.start _) = _
    rw [Lexeme.start_token, List.drop_left, List.take_length]
  | @command name hc hn hne =>
    obtain ⟨htake, hle⟩ := take_initial (hn ▸ List.takeWhile_prefix isLetter (l := rest))
    refine ⟨?_, hle⟩
    show '\\' :: Token.characters _ = _
    rw [Lexeme.characters_token, hc, htake]
  | @attributes content more hc hs =>
    obtain ⟨htake, hle⟩ := take_of_scanClosing hs
    refine ⟨?_, hle⟩
    show '[' :: (Token.characters _ ++ [']']) = _
    rw [Lexeme.characters_token, hc, htake]
    rfl
  | @group content more hc hs =>
    obtain ⟨htake, hle⟩ := take_of_scanClosing hs
    refine ⟨?_, hle⟩
    show '\x7b' :: (Token.characters _ ++ ['\x7d']) = _
    rw [Lexeme.characters_token, hc, htake]
    rfl
  | dashes hc hh =>
    obtain ⟨more, rfl⟩ := List.head?_eq_some_iff.1 hh
    refine ⟨?_, by simp⟩
    rw [spelling_of_kind _ (by simp [Lexeme.token]), Lexeme.characters_token, hc]
    rfl
  | dots hc hh =>
    obtain ⟨more, rfl⟩ := List.head?_eq_some_iff.1 hh
    refine ⟨?_, by simp⟩
    rw [spelling_of_kind _ (by simp [Lexeme.token]), Lexeme.characters_token, hc]
    rfl
  | @number text more hn =>
    obtain ⟨digits, rfl, hdigits⟩ := cons_of_numeralLexeme? hn
    obtain ⟨htake, hle⟩ := take_initial ⟨more, hdigits⟩
    refine ⟨?_, hle⟩
    rw [spelling_of_kind _ (by simp [Lexeme.token]), Lexeme.characters_token]
    exact congrArg (c :: ·) htake.symm
  | @word more hc hm =>
    obtain ⟨htake, hle⟩ := take_initial (hm ▸ List.takeWhile_prefix isLetter (l := rest))
    refine ⟨?_, hle⟩
    rw [spelling_of_kind _ (by simp [Lexeme.token]), Lexeme.characters_token, htake]
  | @symbol kind hk =>
    refine ⟨?_, Nat.zero_le _⟩
    have hkind : kind ∉ [.command, .attributes, .group, .comment] := by
      unfold symbolKind? at hk
      split at hk <;> cases hk <;> decide
    rw [spelling_of_kind _ hkind, Lexeme.characters_token, List.take_zero]

/-! ### The whole line -/

theorem Lexeme.finish_token (line : Value R) (pre : List Char) {c : Char} {rest : List Char}
    {l : Lexeme} (h : lexeme (R := R) c rest = .ok l) :
    (l.token line pre.length).finish (pre ++ c :: rest) = pre.length + 1 + l.extra := by
  obtain ⟨hspelling, hle⟩ := spelling_of_lexeme line pre h
  rw [Token.finish, hspelling, start_token, List.length_cons, List.length_take_of_le hle]
  omega

theorem eq_of_isSeparator {c : Char} (h : isSeparator c = true) : c = ' ' ∨ c = '\t' ∨ c = '\r' := by
  simpa [isSeparator, or_assoc] using h

namespace Accounts

variable {line : Value R} {s pre rest : List Char} {c : Char} {ts : List (Token R)}

theorem nil : Accounts line s s.length ([] : List (Token R)) where
  placed := by simp
  ordered := .nil
  covered := by
    intro j c hj hc
    rw [List.getElem?_eq_none hj] at hc
    cases hc
  comment := by simp

/-- A separator is no part of a token. -/
theorem separator (h : Accounts line (pre ++ c :: rest) (pre.length + 1) ts)
    (hc : isSeparator c = true) : Accounts line (pre ++ c :: rest) pre.length ts where
  placed := by
    intro t ht
    obtain ⟨hle, hplaced⟩ := h.placed t ht
    exact ⟨by omega, hplaced⟩
  ordered := h.ordered
  covered := by
    intro j d hj hd
    rcases Nat.eq_or_lt_of_le hj with rfl | hj
    · obtain rfl : c = d := by simpa using hd
      exact .inr (eq_of_isSeparator hc)
    · exact h.covered j d hj hd
  comment := h.comment

/-- A lexeme accounts for the characters it has been cut from. -/
theorem lexeme {l : Lexeme} (h : Accounts line (pre ++ c :: rest) (pre.length + 1 + l.extra) ts)
    (hl : FeynmanTikz.lexeme (R := R) c rest = .ok l) (hlast : l.kind = .comment → ts = []) :
    Accounts line (pre ++ c :: rest) pre.length (l.token line pre.length :: ts) := by
  have hfinish := Lexeme.finish_token line pre hl
  obtain ⟨hspelling, hle⟩ := spelling_of_lexeme line pre hl
  constructor
  case placed =>
    intro t ht
    rcases List.mem_cons.1 ht with rfl | ht
    · rw [hfinish, hspelling, Lexeme.start_token, Lexeme.characters_token, List.drop_left]
      exact ⟨Nat.le_refl _, rfl, rfl, by omega, List.cons_prefix_cons.2 ⟨rfl, List.take_prefix _ _⟩⟩
    · obtain ⟨hstart, hplaced⟩ := h.placed t ht
      exact ⟨by omega, hplaced⟩
  case ordered =>
    refine List.pairwise_cons.2 ⟨fun t ht => ?_, h.ordered⟩
    rw [hfinish]
    exact (h.placed t ht).1
  case covered =>
    intro j d hj hd
    by_cases hin : j < pre.length + 1 + l.extra
    · refine .inl ⟨_, List.mem_cons_self, ?_, ?_⟩
      · rwa [Lexeme.start_token]
      · rwa [hfinish]
    · rcases h.covered j d (by omega) hd with ⟨t, ht, hinside⟩ | hblank
      · exact .inl ⟨t, List.mem_cons_of_mem _ ht, hinside⟩
      · exact .inr hblank
  case comment =>
    intro as t bs hts hk
    cases as with
    | nil =>
      obtain ⟨rfl, rfl⟩ := List.cons.inj hts
      obtain ⟨rfl, rfl⟩ := eq_of_comment hl hk
      refine ⟨hlast rfl, rest, ?_, ?_⟩
      · rw [Lexeme.start_token, List.drop_left]
      · rw [Lexeme.characters_token]
    | cons a as => exact h.comment as t bs (List.cons.inj hts).2 hk

/-- From any place of a line on, its tokens account for what is left. -/
theorem of_tokenizeFrom (pre : List Char) {column : Int} {t : List Char}
    (h : tokenizeFrom line column t = .ok ts) (hcolumn : column = pre.length + 1) :
    Accounts line (pre ++ t) pre.length ts := by
  induction h using tokenizeFrom_induction generalizing pre with
  | nil column =>
    rw [List.append_nil]
    exact nil
  | @separator column c t ts hc h ih =>
    have hrest := ih (pre ++ [c]) (by rw [List.length_append, hcolumn]; rfl)
    rw [List.append_assoc, List.length_append] at hrest
    exact hrest.separator hc
  | @lexeme column c t l ts hc hl h ih =>
    obtain ⟨-, hle⟩ := spelling_of_lexeme line pre hl
    have hlength : (pre ++ c :: t.take l.extra).length = pre.length + 1 + l.extra := by
      rw [List.length_append, List.length_cons, List.length_take_of_le hle]
      omega
    have hrest := ih (pre ++ c :: t.take l.extra) (by rw [hlength, hcolumn]; omega)
    rw [hlength, List.append_assoc, List.cons_append, List.take_append_drop] at hrest
    have hlast (hk : l.kind = .comment) : ts = [] := by
      rw [drop_of_comment hl hk, tokenizeFrom_nil] at h
      exact (Except.ok.inj h).symm
    subst hcolumn
    exact hrest.lexeme hl hlast

end Accounts

/-- The tokens of a line account for the whole line. -/
theorem accounts_of_tokenize {line : Value R} {s : List Char} {ts : List (Token R)}
    (h : tokenize line s = .ok ts) : Accounts line s 0 ts :=
  Accounts.of_tokenizeFrom [] h rfl

/-- A line with tokens of every kind, with and without blanks between them. -/
theorem accounts_of_tokenize_mixed : ∃ ts : List (Token Exact),
    tokenize (.int 3) "\\draw[->]\t(0,-1.5)--node\x7ba\x7d..;\r %  end ".toList = .ok ts ∧
      Accounts (.int 3) "\\draw[->]\t(0,-1.5)--node\x7ba\x7d..;\r %  end ".toList 0 ts := by
  obtain ⟨ts, hts⟩ := exists_of_isOk
    (x := (tokenize (.int 3) "\\draw[->]\t(0,-1.5)--node\x7ba\x7d..;\r %  end ".toList :
      Except (Fault Exact) _)) (by decide +kernel)
  exact ⟨ts, hts, accounts_of_tokenize hts⟩

end FeynmanTikz
