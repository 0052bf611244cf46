/-
The partner of a bracket.

Texts in brackets are described by a grammar: between square brackets stand escapes, texts in braces or
in square brackets, and other characters; between braces a square bracket is such a character as well.
The scanner follows this grammar with a stack.

* `Encloses b t`: `t` can stand between brackets of the kind `b`; `Nested b t`: it begins and ends with
  these,
* `encloses_iff_passes`: what can stand between brackets leaves the stack as it was, and nothing else does,
* `exists_halt`: how far the stack can be followed, `isScanned_scanClosing`: how a scan ends there,
* `canClose_of_passes`, `not_canClose`: whether what has been read can still be closed,
* `bracketLexeme_partner`: the scan of a bracket inside a text ends behind its partner, if it has one, and
  otherwise fails at the first character after which it can have none.
-/
import FeynmanTikz.Proofs.Tikz.Columns

namespace FeynmanTikz

/-! ### The grammar -/

/-- Characters that do not stand for themselves between brackets of a kind. -/
def special : Bracket → List Char
  | .brace => ['\\', '{', '}']
  | .square => ['\\', '{', '}', '[', ']']

/-- Texts that can stand between brackets of a kind. -/
inductive Encloses : Bracket → List Char → Prop
  | nothing {b : Bracket} : Encloses b []
  | escape {b : Bracket} (c : Char) {t : List Char} (h : Encloses b t) : Encloses b ('\\' :: c :: t)
  | other {b : Bracket} {c : Char} {t : List Char} (hc : c ∉ special b) (h : Encloses b t) :
    Encloses b (c :: t)
  | group {b : Bracket} {t u : List Char} (ht : Encloses .brace t) (hu : Encloses b u) :
    Encloses b ('{' :: (t ++ '}' :: u))
  | list {t u : List Char} (ht : Encloses .square t) (hu : Encloses .square u) :
    Encloses .square ('[' :: (t ++ ']' :: u))

/-- A text in brackets of a kind. -/
def Nested (b : Bracket) (t : List Char) : Prop :=
  ∃ content, Encloses b content ∧ t = b.opening :: (content ++ [b.closing])

/-- A text that can be continued to one in brackets. -/
def CanClose (b : Bracket) (t : List Char) : Prop := ∃ more, Nested b (t ++ more)

theorem CanClose.left {b : Bracket} {t u : List Char} (h : CanClose b (t ++ u)) : CanClose b t := by
  obtain ⟨more, hmore⟩ := h
  exact ⟨u ++ more, by rwa [← List.append_assoc]⟩

/-- Braces stand anywhere, square brackets only between square brackets. -/
theorem Encloses.bracket {b b' : Bracket} (hb : b' = .brace ∨ b = .square) {t u : List Char}
    (ht : Encloses b' t) (hu : Encloses b u) : Encloses b (b'.opening :: (t ++ b'.closing :: u)) := by
  cases b' with
  | brace => exact .group ht hu
  | square =>
    obtain rfl : b = .square := by simpa using hb
    exact .list ht hu

/-! ### Turns of the stack -/

theorem stackAfter_opening {b b' : Bracket} (hb : b' = .brace ∨ b = .square) (s : List Bracket) :
    stackAfter (b :: s) b'.opening = some (b' :: b :: s) := by
  cases b' with
  | brace => rfl
  | square =>
    obtain rfl : b = .square := by simpa using hb
    rfl

theorem stackAfter_closing (b : Bracket) {s : List Bracket} (hs : s ≠ []) :
    stackAfter (b :: s) b.closing = some s := by
  cases b <;> simp [stackAfter, opens?, closes, Bracket.closing, hs]

theorem stackAfter_other {b : Bracket} {c : Char} (hc : c ∉ special b) (s : List Bracket) :
    stackAfter (b :: s) c = some (b :: s) := by
  cases b <;> simp_all [special, stackAfter, opens?, closes]

theorem Bracket.opening_ne_escape (b : Bracket) : b.opening ≠ '\\' := by
  cases b <;> decide

theorem Bracket.closing_ne_escape (b : Bracket) : b.closing ≠ '\\' := by
  cases b <;> decide

theorem ne_escape_of_not_special {b : Bracket} {c : Char} (hc : c ∉ special b) : c ≠ '\\' := by
  rintro rfl
  cases b <;> exact hc (by decide)

theorem opening_of_opens? {b b' : Bracket} {c : Char} (h : opens? b c = some b') :
    (b' = .brace ∨ b = .square) ∧ c = b'.opening := by
  unfold opens? at h
  split at h
  · rename_i hc
    cases h
    exact ⟨.inl rfl, hc⟩
  · split at h
    · rename_i hc
      cases h
      exact ⟨.inr hc.2, hc.1⟩
    · cases h

/-- A character that opens nothing and closes nothing stands for itself, unless it is an escape. -/
theorem not_special_of_inert {b : Bracket} {c : Char} (hc : c ≠ '\\') (ho : opens? b c = none)
    (hcl : closes b c = false) : c ∉ special b := by
  unfold opens? at ho
  unfold closes at hcl
  cases b <;> grind [special]

/-- A character opens a bracket, closes the innermost one, or changes nothing. -/
theorem stackAfter_cases {b : Bracket} {s r : List Bracket} {c : Char} (hc : c ≠ '\\')
    (h : stackAfter (b :: s) c = some r) :
    (∃ b', (b' = .brace ∨ b = .square) ∧ c = b'.opening ∧ r = b' :: b :: s) ∨
      c = b.closing ∧ r = s ∧ s ≠ [] ∨ c ∉ special b ∧ r = b :: s := by
  unfold stackAfter at h
  dsimp only at h
  cases ho : opens? b c with
  | some b' =>
    rw [ho] at h
    cases h
    obtain ⟨hb, hopening⟩ := opening_of_opens? ho
    exact .inl ⟨b', hb, hopening, rfl⟩
  | none =>
    rw [ho] at h
    dsimp only at h
    cases hcl : closes b c with
    | true =>
      rw [hcl, if_pos rfl] at h
      split at h
      · rename_i hclosing
        cases h
        exact .inr (.inl ⟨hclosing.1, rfl, hclosing.2⟩)
      · cases h
    | false =>
      rw [hcl, if_neg (by decide)] at h
      cases h
      exact .inr (.inr ⟨not_special_of_inert hc ho hcl, rfl⟩)

/-! ### The grammar and the stack -/

/-- A text that leaves a bracket open is passed together with that bracket and its partner. -/
theorem passes_bracket (b' : Bracket) {b : Bracket} {s : List Bracket} {t : List Char}
    (hb : b' = .brace ∨ b = .square) (h : passes (b' :: b :: s) t = some (b' :: b :: s)) (u : List Char) :
    passes (b :: s) (b'.opening :: (t ++ b'.closing :: u)) = passes (b :: s) u := by
  rw [passes_cons b'.opening_ne_escape, stackAfter_opening hb]
  show passes (b' :: b :: s) (t ++ b'.closing :: u) = _
  rw [passes_append h, passes_cons b'.closing_ne_escape, stackAfter_closing b' (List.cons_ne_nil b s)]
  rfl

/-- What can stand between brackets leaves them open and no others. -/
theorem passes_of_encloses {b : Bracket} {t : List Char} (h : Encloses b t) (s : List Bracket) :
    passes (b :: s) t = some (b :: s) := by
  induction h generalizing s with
  | nothing => rfl
  | escape c h ih => exact ih s
  | other hc h ih =>
    rw [passes_cons (ne_escape_of_not_special hc), stackAfter_other hc]
    exact ih s
  | group ht hu iht ihu => exact (passes_bracket .brace (.inl rfl) (iht _) _).trans (ihu s)
  | list ht hu iht ihu => exact (passes_bracket .square (.inr rfl) (iht _) _).trans (ihu s)

/-- Texts that close open brackets from the innermost one outwards, all but the outermost. -/
inductive Unwinds : List Bracket → List Char → Prop
  | outermost {b : Bracket} {t : List Char} (h : Encloses b t) : Unwinds [b] t
  | close {b : Bracket} {s : List Bracket} {t u : List Char} (ht : Encloses b t) (hu : Unwinds s u) :
    Unwinds (b :: s) (t ++ b.closing :: u)

/-- What can stand in front of an enclosed text can stand in front of one that goes on after it. -/
theorem Unwinds.append {b : Bracket} {s : List Bracket} {p t : List Char} (h : Unwinds (b :: s) t)
    (hp : ∀ u, Encloses b u → Encloses b (p ++ u)) : Unwinds (b :: s) (p ++ t) := by
  cases h with
  | outermost h => exact .outermost (hp _ h)
  | close ht hu =>
    rw [← List.append_assoc]
    exact .close (hp _ ht) hu

theorem unwinds_of_passes {b₀ b : Bracket} {s : List Bracket} {t : List Char}
    (h : passes (b :: s) t = some [b₀]) : Unwinds (b :: s) t := by
  -- The induction is along the text, so the open brackets must be free to change.
  generalize hs : b :: s = s₀ at h
  induction s₀, t using passes.induct generalizing b s with
  | case1 s₀ =>
    cases h
    cases hs
    exact .outermost .nothing
  | case2 s₀ => cases h
  | case3 s₀ c t ih =>
    subst hs
    exact (ih rfl h).append (p := ['\\', c]) fun u hu => .escape c hu
  | case4 s₀ c t h₁ h₂ ih =>
    have hc := ne_escape_of_other h₁ h₂
    rw [passes_cons hc] at h
    obtain ⟨r, hr, hrest⟩ := Option.bind_eq_some_iff.1 h
    subst hs
    rcases stackAfter_cases hc hr with ⟨b', hb, rfl, rfl⟩ | ⟨rfl, rfl, hne⟩ | ⟨hother, rfl⟩
    · cases ih _ rfl hrest with
      | @close _ _ t u ht hu =>
        have hstep := hu.append (p := b'.opening :: (t ++ [b'.closing])) fun v hv => by
          simpa using Encloses.bracket hb ht hv
        simpa using hstep
    · obtain ⟨b', s, rfl⟩ := List.exists_cons_of_ne_nil hne
      exact .close .nothing (ih _ rfl hrest)
    · exact (ih _ rfl hrest).append (p := [c]) fun u hu => .other hother hu

theorem encloses_iff_passes {b : Bracket} {t : List Char} :
    Encloses b t ↔ passes [b] t = some [b] := by
  constructor
  · exact fun h => passes_of_encloses h []
  · intro h
    cases unwinds_of_passes h with
    | outermost h => exact h
    | close ht hu => cases hu

/-! ### How a scan ends -/

/-- Where the open brackets cannot be followed further: at the end of the text, at an escape that is cut
short, or at a character that closes the outermost bracket or a wrong one. -/
inductive Halts (r : List Bracket) : List Char → Prop
  | atEnd : Halts r []
  | atEscape : Halts r ['\\']
  | atClosing {c : Char} {v : List Char} (hc : c ≠ '\\') (h : stackAfter r c = none) : Halts r (c :: v)

/-- Every text can be followed up to such a place. -/
theorem exists_halt (s : List Bracket) (t : List Char) :
    ∃ u v r, t = u ++ v ∧ passes s u = some r ∧ Halts r v := by
  induction s, t using passes.induct with
  | case1 s => exact ⟨[], [], s, rfl, rfl, .atEnd⟩
  | case2 s => exact ⟨[], _, s, rfl, rfl, .atEscape⟩
  | case3 s c t ih =>
    obtain ⟨u, v, r, rfl, hu, hv⟩ := ih
    exact ⟨'\\' :: c :: u, v, r, rfl, hu, hv⟩
  | case4 s c t h₁ h₂ ih =>
    have hc := ne_escape_of_other h₁ h₂
    cases hs : stackAfter s c with
    | none => exact ⟨[], c :: t, s, rfl, rfl, .atClosing hc hs⟩
    | some s' =>
      obtain ⟨u, v, r, rfl, hu, hv⟩ := ih s'
      refine ⟨c :: u, v, r, rfl, ?_, hv⟩
      rw [passes_cons hc, hs]
      exact hu

/-- Only a brace can be a wrong partner, because square brackets are plain between braces. -/
theorem closing_of_stackAfter {b : Bracket} {s : List Bracket} {c : Char}
    (h : stackAfter (b :: s) c = none) : c = b.closing ∧ s = [] ∨ b = .square ∧ c = '}' := by
  unfold stackAfter opens? closes at h
  cases b <;> grind [Bracket.closing]

/-- The ways in which the scan of the text behind a bracket can end. -/
inductive IsScanned (b : Bracket) (t : List Char) : Scan → Prop
  /-- At its partner, and nothing is left open. -/
  | closed {u v : List Char} (ht : t = u ++ b.closing :: v) (hu : Encloses b u) : IsScanned b t (.closed u v)
  /-- At a brace while a square bracket is open. -/
  | mismatched {u v : List Char} {s : List Bracket} (ht : t = u ++ '}' :: v)
    (hu : passes [b] u = some (.square :: s)) : IsScanned b t (.mismatched u.length '}')
  /-- At the end of the text, perhaps within an escape. -/
  | unterminated {u : List Char} {s : List Bracket} (ht : t = u ∨ t = u ++ ['\\'])
    (hu : passes [b] u = some s) : IsScanned b t .unterminated

theorem isScanned_scanClosing (b : Bracket) (t : List Char) : IsScanned b t (scanClosing b [] t) := by
  obtain ⟨u, v, r, rfl, hu, hv⟩ := exists_halt [b] t
  have hlast : r.getLast? = some b := getLast?_passes hu
  obtain ⟨inner, outer, rfl⟩ : ∃ inner outer, r = inner :: outer :=
    List.exists_cons_of_ne_nil (by rintro rfl; cases hlast)
  rw [scanClosing_of_passes v hu]
  cases hv with
  | atEnd => exact .unterminated (.inl (List.append_nil u)) hu
  | atEscape => exact .unterminated (.inr rfl) hu
  | atClosing hc h =>
    rcases closing_of_stackAfter h with ⟨rfl, rfl⟩ | ⟨rfl, rfl⟩
    · obtain rfl : inner = b := by simpa using hlast
      rw [← scanClosing_of_passes _ hu, scanClosing_closed hu]
      exact .closed rfl (encloses_iff_passes.2 hu)
    · exact .mismatched rfl hu

/-- The scan finds the partner that the grammar gives. -/
theorem scanClosing_eq_closed {b : Bracket} {t content rest : List Char} :
    scanClosing b [] t = .closed content rest ↔
      t = content ++ b.closing :: rest ∧ Encloses b content := by
  constructor
  · exact fun h => ⟨eq_of_scanClosing h, encloses_iff_passes.2 (passes_of_closed_alone h)⟩
  · rintro ⟨rfl, h⟩
    exact scanClosing_closed (encloses_iff_passes.1 h) rest

/-! ### What can still be closed -/

/-- All open brackets but the outermost can be closed. -/
theorem exists_passes {b : Bracket} : ∀ {s : List Bracket}, s.getLast? = some b →
    ∃ t, passes s t = some [b]
  | [_], h => ⟨[], by obtain rfl := Option.some.inj h; rfl⟩
  | b' :: b'' :: s, h => by
    obtain ⟨t, ht⟩ := exists_passes (s := b'' :: s) (by rwa [List.getLast?_cons_cons] at h)
    refine ⟨b'.closing :: t, ?_⟩
    rw [passes_cons b'.closing_ne_escape, stackAfter_closing b' (List.cons_ne_nil b'' s)]
    exact ht

theorem canClose_of_passes {b : Bracket} {s : List Bracket} {t : List Char} (h : passes [b] t = some s) :
    CanClose b (b.opening :: t) := by
  obtain ⟨u, hu⟩ := exists_passes (getLast?_passes h)
  refine ⟨u ++ [b.closing], t ++ u, ?_, by simp⟩
  rw [encloses_iff_passes, passes_append h, hu]
  rfl

/-- After a wrong partner nothing helps. -/
theorem not_canClose {b : Bracket} {s : List Bracket} {t : List Char}
    (h : passes [b] t = some (.square :: s)) : ¬CanClose b (b.opening :: (t ++ ['}'])) := by
  rintro ⟨more, content, hcontent, heq⟩
  have htext : t ++ '}' :: more = content ++ [b.closing] := by simpa using heq
  have hclosed := scanClosing_eq_closed.2 ⟨htext, hcontent⟩
  rw [scanClosing_of_passes _ h] at hclosed
  cases hclosed

/-! ### Brackets inside a text -/

/-- The bracket at index `i` of a text has its partner just before index `e`. -/
def HasPartner (b : Bracket) (s : List Char) (i e : Nat) : Prop :=
  e ≤ s.length ∧ Nested b (s.extract i e)

/-- Why the bracket at index `i` of a text has no partner, and how many characters on this is seen. -/
inductive LacksPartner {R : Type} (b : Bracket) (s : List Char) (i : Nat) : ReadProblem R → Nat → Prop
  /-- All that stands before a brace can still be closed, but not with that brace. -/
  | mismatched {k : Nat} (hk : s[i + k]? = some '}') (hbefore : CanClose b (s.extract i (i + k)))
    (hbehind : ¬CanClose b (s.extract i (i + k + 1))) : LacksPartner b s i (.mismatchedBracket '}') k
  /-- The whole text can still be closed. -/
  | unterminated (h : CanClose b (s.drop i)) : LacksPartner b s i (.unterminatedBracket b.opening) 0

section

variable {s : List Char} {i : Nat} {b : Bracket} (h : s[i]? = some b.opening)

include h

theorem drop_eq_opening : s.drop i = b.opening :: s.drop (i + 1) := by
  obtain ⟨hi, hs⟩ := List.getElem?_eq_some_iff.1 h
  rw [List.drop_eq_getElem_cons hi, hs]

/-- A text from a bracket on is that bracket and what follows it. -/
theorem extract_eq_opening (k : Nat) :
    s.extract i (i + 1 + k) = b.opening :: (s.drop (i + 1)).take k := by
  rw [List.extract_eq_take_drop, drop_eq_opening h, show i + 1 + k - i = k + 1 by omega,
    List.take_succ_cons]

/-- The scan stops behind the partner. -/
theorem hasPartner_iff {e : Nat} : HasPartner b s i e ↔ ∃ content rest,
    scanClosing b [] (s.drop (i + 1)) = .closed content rest ∧ i + 1 + (content.length + 1) = e := by
  constructor
  · rintro ⟨he, content, hcontent, htext⟩
    have hend : i + 1 + (content.length + 1) = e := by
      have hlength := congrArg List.length htext
      simp at hlength
      omega
    subst hend
    rw [extract_eq_opening h, List.cons_eq_cons] at htext
    refine ⟨content, (s.drop (i + 1)).drop (content.length + 1), ?_, rfl⟩
    refine scanClosing_eq_closed.2 ⟨?_, hcontent⟩
    have hsplit := List.take_append_drop (content.length + 1) (s.drop (i + 1))
    rw [htext.2] at hsplit
    simpa using hsplit.symm
  · rintro ⟨content, rest, hscan, rfl⟩
    obtain ⟨htake, hle⟩ := take_of_scanClosing hscan
    refine ⟨?_, content, (scanClosing_eq_closed.1 hscan).2, ?_⟩
    · rw [List.length_drop] at hle
      omega
    · rw [extract_eq_opening h, htake]

variable {R : Type}

theorem bracketLexeme_ok_iff (e : Nat) :
    (∃ l, bracketLexeme (R := R) b (s.drop (i + 1)) = .ok l ∧ i + 1 + l.extra = e) ↔
      HasPartner b s i e := by
  rw [hasPartner_iff h]
  constructor
  · rintro ⟨l, hl, rfl⟩
    obtain ⟨content, rest, hscan, rfl⟩ := closed_of_bracketLexeme hl
    exact ⟨content, rest, hscan, rfl⟩
  · rintro ⟨content, rest, hscan, rfl⟩
    unfold bracketLexeme
    rw [hscan]
    exact ⟨_, rfl, rfl⟩

theorem lacksPartner_of_bracketLexeme {problem : ReadProblem R} {offset : Nat}
    (hl : bracketLexeme b (s.drop (i + 1)) = .error (problem, offset)) :
    LacksPartner b s i problem offset := by
  have hends := isScanned_scanClosing b (s.drop (i + 1))
  unfold bracketLexeme at hl
  generalize scanClosing b [] (s.drop (i + 1)) = o at hl hends
  cases hends with
  | closed ht hu => cases hl
  | @mismatched u v r ht hu =>
    cases hl
    have hplace : i + (u.length + 1) = i + 1 + u.length := by omega
    refine .mismatched ?_ ?_ ?_
    · rw [hplace, ← List.getElem?_drop, ht]
      simp
    · rw [hplace, extract_eq_opening h, ht, List.take_left]
      exact canClose_of_passes hu
    · rw [hplace, Nat.add_assoc, extract_eq_opening h, ht, List.take_length_add_append]
      exact not_canClose hu
  | @unterminated u r ht hu =>
    cases hl
    refine .unterminated ?_
    rw [drop_eq_opening h]
    rcases ht with ht | ht
    · rw [ht]
      exact canClose_of_passes hu
    · -- Any character completes the escape.
      have hmore : passes [b] (u ++ ['\\', '\\']) = some r := by
        rw [passes_append hu]
        rfl
      have hclose := canClose_of_passes hmore
      rw [ht]
      exact CanClose.left (u := ['\\']) (by simpa using hclose)

/-- The scan of a bracket inside a text ends behind its partner, if it has one.  It has at most one.  If it
has none, the scan fails where this is first seen. -/
theorem bracketLexeme_partner :
    (∀ e, (∃ l, bracketLexeme (R := R) b (s.drop (i + 1)) = .ok l ∧ i + 1 + l.extra = e) ↔
        HasPartner b s i e) ∧
      (∀ e e', HasPartner b s i e → HasPartner b s i e' → e = e') ∧
      ((∃ f, bracketLexeme (R := R) b (s.drop (i + 1)) = .error f) ↔ ¬∃ e, HasPartner b s i e) ∧
      ∀ problem offset, bracketLexeme (R := R) b (s.drop (i + 1)) = .error (problem, offset) →
        LacksPartner b s i problem offset := by
  refine ⟨bracketLexeme_ok_iff h, fun e e' he he' => ?_, ?_, fun _ _ => lacksPartner_of_bracketLexeme h⟩
  · obtain ⟨l, hl, rfl⟩ := (bracketLexeme_ok_iff (R := R) h e).2 he
    obtain ⟨l', hl', rfl⟩ := (bracketLexeme_ok_iff (R := R) h e').2 he'
    cases hl.symm.trans hl'
    rfl
  · simp only [← bracketLexeme_ok_iff (R := R) h]
    cases hl : bracketLexeme (R := R) b (s.drop (i + 1)) with
    | error f => simp
    | ok l => simp

end

/-- A square bracket inside braces needs no partner, and a brace that is not open is none. -/
theorem bracketLexeme_partner_mixed :
    "\\draw[a=\x7b[\x7d, b[c]] (0, 0)".toList[5]? = some Bracket.square.opening ∧
      HasPartner .square "\\draw[a=\x7b[\x7d, b[c]] (0, 0)".toList 5 18 ∧
      "\\draw[a\x7d] (0, 0);".toList[5]? = some Bracket.square.opening ∧
      ¬∃ e, HasPartner .square "\\draw[a\x7d] (0, 0);".toList 5 e := by
  have h : "\\draw[a=\x7b[\x7d, b[c]] (0, 0)".toList[5]? = some Bracket.square.opening := by decide
  have h' : "\\draw[a\x7d] (0, 0);".toList[5]? = some Bracket.square.opening := by decide
  obtain ⟨hends, -⟩ := bracketLexeme_partner (R := Exact) h
  obtain ⟨-, -, hfails, -⟩ := bracketLexeme_partner (R := Exact) h'
  exact ⟨h, (hends 18).1 ⟨_, rfl, rfl⟩, h', hfails.1 ⟨_, rfl⟩⟩

end FeynmanTikz
