/-
The layout of a line does not matter.

Tokens are cut off as far as they go, and next to each other: `1...5` is a number, two dots and a number.
What ends a token is what follows it, so it must be shown that nothing changes when blanks do.

* `spread pad s`: the text `s` with a pad before each of its characters and one at its end,
* `Spaced u v`: `v` is `u` with spaces and tabs put in; what `v` starts with, `u` starts with as well,
  blanks aside,
* `exponent?_spaced`: no power of ten comes about in this way,
* `starts_spaced`: a lexeme stays a lexeme when what follows it is spaced,
* `lexes_spread`: a line is cut into the same tokens when pads stand before its tokens only,
* `tokenize_spread`: and it is read as the same statement.

Design notes.
* A pad is given for every place of the line and is empty where nothing is put in.
-/
import FeynmanTikz.Proofs.Tikz.Columns
import FeynmanTikz.Proofs.Tikz.Places

namespace FeynmanTikz

/-- A text with a pad before each of its characters and one at its end. -/
def spread (pad : Nat → List Char) : List Char → List Char
  | [] => pad 0
  | c :: t => pad 0 ++ c :: spread (fun i => pad (i + 1)) t

/-- Spaces and tabs. -/
def IsGap (g : List Char) : Prop := ∀ c ∈ g, c = ' ' ∨ c = '\t'

/-- The second text is the first one with spaces and tabs put in. -/
inductive Spaced : List Char → List Char → Prop
  | nil : Spaced [] []
  | blank {c : Char} {u v : List Char} (hc : c = ' ' ∨ c = '\t') (h : Spaced u v) : Spaced u (c :: v)
  | cons (c : Char) {u v : List Char} (h : Spaced u v) : Spaced (c :: u) (c :: v)

variable {R : Type}

/-! ### Spaced texts -/

theorem Spaced.gap {g u v : List Char} (hg : IsGap g) (h : Spaced u v) : Spaced u (g ++ v) := by
  induction g with
  | nil => exact h
  | cons c g ih =>
    obtain ⟨hc, hg⟩ := List.forall_mem_cons.1 hg
    exact .blank hc (ih hg)

theorem spaced_spread {pad : Nat → List Char} (hgap : ∀ i, IsGap (pad i)) (t : List Char) :
    Spaced t (spread pad t) := by
  induction t generalizing pad with
  | nil =>
    have h := Spaced.nil.gap (hgap 0)
    rwa [List.append_nil] at h
  | cons c t ih => exact (Spaced.cons c (ih fun i => hgap (i + 1))).gap (hgap 0)

/-- What a spaced text starts with, the text starts with as well, unless it is a blank. -/
theorem Spaced.of_cons {c : Char} {u v : List Char} (h : Spaced u (c :: v)) (hc : ¬(c = ' ' ∨ c = '\t')) :
    ∃ u', u = c :: u' ∧ Spaced u' v := by
  cases h with
  | blank hblank => exact absurd hblank hc
  | cons _ h => exact ⟨_, rfl, h⟩

theorem Spaced.head {c : Char} {u v : List Char} (h : Spaced u v) (hc : v.head? = some c) :
    u.head? = some c ∨ c = ' ' ∨ c = '\t' := by
  cases h with
  | nil => cases hc
  | blank hblank => exact .inr (Option.some.inj hc ▸ hblank)
  | cons d _ => exact .inl hc

theorem Spaced.of_append {p u v : List Char} (h : Spaced u (p ++ v))
    (hp : ∀ c ∈ p, ¬(c = ' ' ∨ c = '\t')) : ∃ u', u = p ++ u' := by
  induction p generalizing u with
  | nil => exact ⟨u, rfl⟩
  | cons c p ih =>
    obtain ⟨hc, hp⟩ := List.forall_mem_cons.1 hp
    obtain ⟨u', rfl, hrest⟩ := Spaced.of_cons h hc
    obtain ⟨w, rfl⟩ := ih hrest hp
    exact ⟨w, rfl⟩

/-- A class of characters without blanks that a text does not start with is not what the spaced text
starts with. -/
theorem Spaced.head_eq_false {p : Char → Bool} {u v : List Char} (h : Spaced u v)
    (hu : ∀ c, u.head? = some c → p c = false) (hspace : p ' ' = false) (htab : p '\t' = false) :
    ∀ c, v.head? = some c → p c = false := by
  intro c hc
  rcases h.head hc with hc | rfl | rfl
  · exact hu c hc
  · exact hspace
  · exact htab

/-! ### Lexemes of spaced texts -/

theorem IsNumeralChar.not_gap {c : Char} (h : IsNumeralChar c) : ¬(c = ' ' ∨ c = '\t') := by
  have hblank := h.inert.1
  rintro (rfl | rfl)
  · exact absurd hblank (by decide)
  · exact absurd hblank (by decide)

/-- Where a digit follows the mark and the sign, there is a power of ten. -/
theorem exponent?_ne_none {c d : Char} {sign t : List Char} (hc : c = 'e' ∨ c = 'E') (hs : IsSign sign)
    (hd : isDecimalDigit d = true) : exponent? (c :: (sign ++ d :: t)) ≠ none := by
  have hsign : spanSign (sign ++ d :: t) = (sign, d :: t) := by
    refine hs.again ?_
    rintro _ ⟨⟩
    constructor
    all_goals
      rintro rfl
      exact absurd hd (by decide)
  have hspan : spanDigits (d :: t) = (d :: t.takeWhile isDecimalDigit, t.dropWhile isDecimalDigit) := by
    simp [spanDigits, hd]
  rw [exponent?, if_pos hc, hsign]
  simp [hspan]

/-- Blanks do not bring about a power of ten. -/
theorem exponent?_spaced {u v : List Char} (h : Spaced u v) (hu : exponent? u = none) :
    exponent? v = none := by
  cases hv : exponent? v with
  | none => rfl
  | some e =>
    obtain ⟨rfl, -⟩ := exponent?_cut hv
    have hread := exponent?_isRead hv
    obtain ⟨w, rfl⟩ := h.of_append fun c hc => (hread.numeralChars hc).not_gap
    obtain ⟨d, ds, hds⟩ := List.exists_cons_of_ne_nil hread.nonempty
    obtain ⟨c, hc, hmark⟩ : ∃ c, (c = 'e' ∨ c = 'E') ∧ e.mark = [c] :=
      hread.mark.elim (fun hm => ⟨'e', .inl rfl, hm⟩) fun hm => ⟨'E', .inr rfl, hm⟩
    have hdigit := hread.digits d (by rw [hds]; exact List.mem_cons_self)
    have htext : e.text ++ w = c :: (e.sign ++ d :: (ds ++ w)) := by
      simp [Exponent.text, hmark, hds]
    rw [htext] at hu
    exact absurd hu (exponent?_ne_none hc hread.sign hdigit)

/-- Letters are cut off as far as they go. -/
theorem letters_cut {rest name : List Char} (hn : rest.takeWhile isLetter = name) :
    rest.take name.length = name ∧ (∀ c ∈ name, isLetter c = true) ∧
      ∀ c, (rest.drop name.length).head? = some c → isLetter c = false := by
  subst hn
  refine ⟨(take_initial (List.takeWhile_prefix _)).1, List.all_eq_true.1 List.all_takeWhile,
    fun c hc => ?_⟩
  have hdrop := @List.drop_left _ (rest.takeWhile isLetter) (rest.dropWhile isLetter)
  rw [List.takeWhile_append_dropWhile] at hdrop
  have hhead := List.head?_dropWhile_not isLetter rest
  rw [← hdrop, hc] at hhead
  exact hhead

/-- A lexeme stays a lexeme when what follows it is spaced.  After a comment there is nothing to space. -/
theorem starts_spaced {c : Char} {rest v : List Char} {l : Lexeme} (hl : lexeme (R := R) c rest = .ok l)
    (h : Spaced (rest.drop l.extra) v) (hcomment : l.kind = .comment → v = []) :
    Starts R (c :: (rest.take l.extra ++ v)) l.kind l.text v := by
  cases isLexeme_of_lexeme hl with
  | comment hc =>
    obtain rfl := hcomment rfl
    rw [hc, List.take_length, List.append_nil]
    exact .comment rest
  | @command name hc hn hne =>
    obtain ⟨htake, hletters, hends⟩ := letters_cut hn
    rw [hc, htake]
    exact .command hletters hne (h.head_eq_false hends rfl rfl)
  | @attributes content more hc hs =>
    rw [hc, (take_of_scanClosing hs).1, List.append_assoc]
    exact .attributes (passes_of_closed_alone hs) v
  | @group content more hc hs =>
    rw [hc, (take_of_scanClosing hs).1, List.append_assoc]
    exact .group (passes_of_closed_alone hs) v
  | dashes hc hh =>
    obtain ⟨more, rfl⟩ := List.head?_eq_some_iff.1 hh
    rw [hc]
    exact .dashes v
  | dots hc hh =>
    obtain ⟨more, rfl⟩ := List.head?_eq_some_iff.1 hh
    rw [hc]
    exact .dots v
  | @number text more hn =>
    obtain ⟨digits, rfl, rfl⟩ := cons_of_numeralLexeme? hn
    have hlength : (c :: digits).length - 1 = digits.length := rfl
    rw [hlength, List.drop_left] at h
    rw [hlength, List.take_left]
    refine .number (numeralLexeme?_again hn (fun d hd => ?_) (exponent?_spaced h))
    rcases h.head hd with hd | rfl | rfl
    · exact .inl hd
    · exact .inr (by decide)
    · exact .inr (by decide)
  | @word more hc hm =>
    obtain ⟨htake, hletters, hends⟩ := letters_cut hm
    rw [htake]
    exact .word (List.cons_ne_nil _ _) (List.forall_mem_cons.2 ⟨hc, hletters⟩)
      (h.head_eq_false hends rfl rfl)
  | @symbol kind hk =>
    unfold symbolKind? at hk
    split at hk
    · cases hk
      exact .leftParen v
    · cases hk
      exact .rightParen v
    · cases hk
      exact .comma v
    · cases hk
      exact .semicolon v
    · cases hk

/-! ### The whole line -/

theorem Lexes.gap {g t : List Char} (hg : IsGap g) {ps : List (TokenKind × List Char)}
    (h : Lexes R t ps) : Lexes R (g ++ t) ps := by
  induction g with
  | nil => exact h
  | cons c g ih =>
    obtain ⟨hc, hg⟩ := List.forall_mem_cons.1 hg
    refine Lexes.separator ?_ (ih hg)
    rcases hc with rfl | rfl <;> rfl

/-- Nothing is put in where the pads are empty. -/
theorem spread_append {pad : Nat → List Char} {u : List Char} (h : ∀ i < u.length, pad i = [])
    (v : List Char) : spread pad (u ++ v) = u ++ spread (fun i => pad (i + u.length)) v := by
  induction u generalizing pad with
  | nil => rfl
  | cons c u ih =>
    rw [List.cons_append, spread, h 0 (Nat.zero_lt_succ _), List.nil_append, List.cons_append,
      ih fun i hi => h (i + 1) (Nat.succ_lt_succ hi)]
    simp only [List.length_cons, Nat.add_assoc]

/-- The tokens of what stands after `n` characters of a line start after these. -/
theorem le_start_of_mem {line : Value R} {n : Nat} {t : List Char} {ts : List (Token R)}
    (h : tokenizeFrom line (n + 1) t = .ok ts) {k : Token R} (hk : k ∈ ts) : n ≤ k.start := by
  have hplaced := (Accounts.of_tokenizeFrom (List.replicate n ' ') h (by simp)).placed k hk
  rw [List.length_replicate] at hplaced
  exact hplaced.1

/-- Where pads stand in a text that is cut into tokens after `n` characters of its line: right before
tokens, and at the end unless there is a comment. -/
def PadsTokens (pad : Nat → List Char) (n : Nat) (t : List Char) (ts : List (Token R)) : Prop :=
  ∀ i, pad i ≠ [] → (∃ k ∈ ts, k.start = n + i) ∨ i = t.length ∧ ∀ k ∈ ts, k.kind ≠ .comment

/-- A text is cut into the same tokens when pads stand before its tokens only. -/
theorem lexes_spread {line : Value R} {column : Int} {t : List Char} {ts : List (Token R)}
    (h : tokenizeFrom line column t = .ok ts) {n : Nat} (hn : column = n + 1) {pad : Nat → List Char}
    (hgap : ∀ i, IsGap (pad i)) (hpad : PadsTokens pad n t ts) :
    ∃ ps, Lexes R (spread pad t) ps ∧ ts.map Token.seen = ps.map seenAs := by
  induction h using tokenizeFrom_induction generalizing n pad with
  | nil column =>
    refine ⟨[], ?_, rfl⟩
    have hend := (Lexes.nil (R := R)).gap (hgap 0)
    rwa [List.append_nil] at hend
  | @separator column c t ts hc h ih =>
    obtain ⟨ps, hlexes, hseen⟩ := ih (n := n + 1) (by rw [hn]; rfl) (fun i => hgap (i + 1))
      fun i hi => by
        rcases hpad (i + 1) hi with ⟨k, hk, hstart⟩ | ⟨hlength, hlast⟩
        · exact .inl ⟨k, hk, by omega⟩
        · exact .inr ⟨Nat.succ.inj hlength, hlast⟩
    exact ⟨ps, (hlexes.separator hc).gap (hgap 0), hseen⟩
  | @lexeme column c t l ts hc hl h ih =>
    subst hn
    have hle : l.extra ≤ t.length := (spelling_of_lexeme line [] hl).2
    have hcolumn : (n : Int) + 1 + 1 + l.extra = ((n + 1 + l.extra : Nat) : Int) + 1 := by omega
    have hstart : (l.token line n).start = n := Lexeme.start_token l line n
    have hother (k : Token R) (hk : k ∈ ts) : n + 1 + l.extra ≤ k.start :=
      le_start_of_mem (by rwa [← hcolumn]) hk
    -- No token starts within the lexeme, so nothing is put in there.
    have hempty (i : Nat) (hi : i < (t.take l.extra).length) : pad (i + 1) = [] := by
      by_contra hne
      rw [List.length_take_of_le hle] at hi
      rcases hpad (i + 1) hne with ⟨k, hk, hat⟩ | ⟨hend, -⟩
      · rcases List.mem_cons.1 hk with rfl | hk
        · have := hstart.symm.trans hat
          omega
        · have := hother k hk
          omega
      · rw [List.length_cons] at hend
        omega
    have hrest : PadsTokens (fun i => pad (i + l.extra + 1)) (n + 1 + l.extra) (t.drop l.extra) ts := by
      intro i hne
      rcases hpad _ hne with ⟨k, hk, hat⟩ | ⟨hend, hlast⟩
      · rcases List.mem_cons.1 hk with rfl | hk
        · have := hstart.symm.trans hat
          omega
        · exact .inl ⟨k, hk, by omega⟩
      · refine .inr ⟨?_, fun k hk => hlast k (List.mem_cons_of_mem _ hk)⟩
        rw [List.length_cons] at hend
        rw [List.length_drop]
        omega
    have hcomment (hk : l.kind = .comment) :
        spread (fun i => pad (i + l.extra + 1)) (t.drop l.extra) = [] := by
      have hnil := drop_of_comment hl hk
      rw [hnil, tokenizeFrom_nil] at h
      obtain rfl := Except.ok.inj h
      rw [hnil]
      by_contra hne
      rcases hpad _ hne with ⟨k, hmem, hat⟩ | ⟨-, hlast⟩
      · obtain rfl := List.mem_singleton.1 hmem
        have := hstart.symm.trans hat
        omega
      · exact hlast _ List.mem_cons_self hk
    obtain ⟨ps, hlexes, hseen⟩ := ih hcolumn (fun i => hgap _) hrest
    have hspaced := spaced_spread (fun i => hgap (i + l.extra + 1)) (t.drop l.extra)
    refine ⟨(l.kind, l.text) :: ps, ?_, ?_⟩
    · have hspread : spread pad (c :: t) = pad 0 ++ c :: (t.take l.extra ++
          spread (fun i => pad (i + l.extra + 1)) (t.drop l.extra)) := by
        conv => lhs; rw [← List.take_append_drop l.extra t]
        rw [spread, spread_append hempty, List.length_take_of_le hle]
      rw [hspread]
      exact (hlexes.before (starts_spaced hl hspaced hcomment)).gap (hgap 0)
    · rw [List.map_cons, List.map_cons, hseen]
      rfl

/-- Spaces and tabs right before tokens, and at the end of a line without a comment, do not matter: the line
is cut into the same tokens, and these are read as the same statement. -/
theorem tokenize_spread [Arithmetic R] {line : Value R} {s : List Char} {ts : List (Token R)}
    (h : tokenize line s = .ok ts) (pad : Nat → List Char) (hgap : ∀ i, IsGap (pad i))
    (hpad : PadsTokens pad 0 s ts) (line' : Value R) :
    ∃ ts', tokenize line' (spread pad s) = .ok ts' ∧ ts'.map Token.seen = ts.map Token.seen ∧
      ∀ codec : Given R (Codec R),
        SameReading (readStatement codec ts) (readStatement codec ts') := by
  obtain ⟨ps, hlexes, hseen⟩ := lexes_spread h (n := 0) rfl hgap hpad
  obtain ⟨ts', hts', hseen'⟩ := hlexes line' 1
  have hsame : ts.map Token.seen = ts'.map Token.seen := hseen.trans hseen'.symm
  exact ⟨ts', hts', hsame.symm, fun codec => sameReading_of_seen codec hsame⟩

/-- A point with blanks before a comma, a word and the comment. -/
theorem tokenize_spread_point : ∃ (pad : Nat → List Char) (ts ts' : List (Token Exact)),
    spread pad "\\fill(1.,2e1)circle(.5);%c".toList =
      "\\fill(1. \t,2e1) \tcircle(.5); \t%c".toList ∧
    tokenize (.int 1) "\\fill(1.,2e1)circle(.5);%c".toList = .ok ts ∧
    tokenize (.int 1) (spread pad "\\fill(1.,2e1)circle(.5);%c".toList) = .ok ts' ∧
      ts'.map Token.seen = ts.map Token.seen ∧
      SameReading (readStatement standardCodec ts) (readStatement standardCodec ts') := by
  obtain ⟨ts, hts⟩ := exists_of_isOk (x := (tokenize (.int 1)
    "\\fill(1.,2e1)circle(.5);%c".toList : Except (Fault Exact) _)) (by decide +kernel)
  have hstarts : ((tokenize (.int 1) "\\fill(1.,2e1)circle(.5);%c".toList :
      Except (Fault Exact) _).toOption.any fun ts => [8, 13, 24].all fun i =>
        ts.any fun k => k.start == i) = true := by decide +kernel
  rw [hts] at hstarts
  replace hstarts : ([8, 13, 24].all fun i => ts.any fun k => k.start == i) = true := hstarts
  have hat : ∀ i ∈ [8, 13, 24], ∃ k ∈ ts, k.start = 0 + i := by simpa using hstarts
  obtain ⟨ts', hts', hseen, hread⟩ := tokenize_spread hts
    (fun i => if i ∈ [8, 13, 24] then [' ', '\t'] else [])
    (fun i => by split <;> simp [IsGap])
    (fun i hi => .inl (hat i (by by_contra hne; exact hi (if_neg hne)))) (.int 1)
  exact ⟨_, ts, ts', by decide, hts, hts', hseen, hread standardCodec⟩

end FeynmanTikz
