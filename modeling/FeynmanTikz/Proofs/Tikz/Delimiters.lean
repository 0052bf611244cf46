/-
What stands around the text of a label: braces and math delimiters.

* `passes_iff_balanced`: what passes between two braces is what the check of a label admits,
* `scanClosing_brace_iff`, `tokenize_group_iff`: the lexer closes a group where its text ends exactly
  for such texts, so `groups_balanced` relates the check of a label to the scan and to the tokens,
* `stripMath_eq_self`, `stripMath_stripMath`: there is nothing to strip off a stripped text,
* `bracesBalanced_strip`: stripping never changes the balance,
* `stripMath_canonical`: a stripped text comes back from between any delimiters.

Design notes.
* A text that ends in an escape loses nothing at its end, since a delimiter would close the escape.
  The general laws follow from those of a text that ends otherwise by this case.
-/
import FeynmanTikz.Proofs.Tikz.Tokens

namespace FeynmanTikz

/-! ### Braces -/

/-- A text passes between two braces if its own braces are balanced and it does not escape the second
one. -/
theorem passes_iff_balanced {t : List Char} : passes [.brace] t = some [.brace] ↔
    bracesBalanced t = true ∧ endsInEscape t = false := by
  constructor
  · exact fun h => balanced_of_passes (k := 0) h
  · rintro ⟨hb, he⟩
    exact passes_of_balanced (k := 0) hb he

theorem scanClosing_brace_iff {t r : List Char} :
    scanClosing .brace [] (t ++ '\x7d' :: r) = .closed t r ↔
      bracesBalanced t = true ∧ endsInEscape t = false := by
  rw [← passes_iff_balanced]
  constructor
  · exact passes_of_closed_alone
  · exact fun h => scanClosing_closed h r

section

variable {R : Type} {line : Value R} {t : List Char}

/-- A text that passes between two braces is a group of its own. -/
theorem tokenize_group (h : passes [.brace] t = some [.brace]) :
    tokenize line ('\x7b' :: (t ++ ['\x7d'])) =
      .ok [⟨.group, .text (String.ofList t), line, .int 1⟩] := by
  have hl : lexeme (R := R) '\x7b' (t ++ ['\x7d']) = .ok ⟨.group, t, t.length + 1⟩ := by
    show bracketLexeme .brace (t ++ [Bracket.brace.closing]) = _
    unfold bracketLexeme
    rw [scanClosing_closed h]
  have hrest : (t ++ ['\x7d']).drop (t.length + 1) = [] := List.drop_of_length_le (by simp)
  unfold tokenize
  rw [tokenizeFrom_lexeme (by decide) hl]
  dsimp only
  rw [hrest, tokenizeFrom_nil]
  rfl

/-- The text of a group that a line starts with has passed. -/
theorem passes_of_tokenize {u : List Char} {k : Token R} {ks : List (Token R)}
    (h : tokenize line ('\x7b' :: u) = .ok (k :: ks)) (hk : k.text = .text (String.ofList t)) :
    passes [.brace] t = some [.brace] := by
  unfold tokenize at h
  rcases hl : lexeme (R := R) '\x7b' u with ⟨problem, offset⟩ | l
  · cases (tokenizeFrom_error (by decide) hl).symm.trans h
  · rw [tokenizeFrom_lexeme (by decide) hl] at h
    obtain ⟨content, more, hs, rfl⟩ := closed_of_bracketLexeme (b := .brace) hl
    obtain ⟨ts, -, hts⟩ := map_eq_ok.1 h
    cases hts
    obtain rfl : content = t := String.ofList_injective (Value.text.inj hk)
    exact passes_of_closed_alone hs

theorem tokenize_group_iff : tokenize line ('\x7b' :: (t ++ ['\x7d'])) =
    .ok [⟨.group, .text (String.ofList t), line, .int 1⟩] ↔
      bracesBalanced t = true ∧ endsInEscape t = false := by
  rw [← passes_iff_balanced]
  constructor
  · exact fun h => passes_of_tokenize h rfl
  · exact tokenize_group

end

/-- The brace count of a text and the escape at its end say whether the lexer closes a group right after
it, whatever follows, and whether the text between two braces is a single group. -/
theorem groups_balanced (t : List Char) :
    (∀ r, scanClosing .brace [] (t ++ '\x7d' :: r) = .closed t r ↔
      bracesBalanced t = true ∧ endsInEscape t = false) ∧
    ∀ {R : Type} (line : Value R), tokenize line ('\x7b' :: (t ++ ['\x7d'])) =
      .ok [⟨.group, .text (String.ofList t), line, .int 1⟩] ↔
        bracesBalanced t = true ∧ endsInEscape t = false :=
  ⟨fun _ => scanClosing_brace_iff, fun _ => tokenize_group_iff⟩

/-- Square brackets, percent signs and escaped braces are plain; an escape that takes the last brace is
not. -/
example : bracesBalanced "]%\\\x7d\x7b[\x7d".toList = true ∧ endsInEscape "]%\\\x7d\x7b[\x7d".toList = false := by
  decide

/-! ### Math delimiters -/

/-- A text that ends in an escape does not end in a delimiter. -/
theorem isMathDelimiter_of_endsInEscape {u : List Char} {c : Char} (he : endsInEscape (u ++ [c]) = true) :
    isMathDelimiter c = false := by
  rw [endsInEscape_concat, Bool.and_eq_true, beq_iff_eq] at he
  rw [he.1]
  decide

/-- There is nothing to strip off a text that neither starts nor ends in a delimiter. -/
theorem stripMath_of_core {u : List Char} {c : Char} (hc : isMathDelimiter c = false)
    (hstart : ∀ d, (u ++ [c]).head? = some d → isMathDelimiter d = false) :
    stripMath (u ++ [c]) = u ++ [c] := by
  have hdrop : (u ++ [c]).dropWhile isMathDelimiter = u ++ [c] := by
    obtain ⟨x, xs, hx⟩ := List.exists_cons_of_ne_nil (List.append_ne_nil_of_right_ne_nil u (List.cons_ne_nil c []))
    rw [hx] at hstart ⊢
    rw [List.dropWhile_cons, if_neg (by simp [hstart x rfl])]
  have hend : dropEndWhile isMathDelimiter (u ++ [c]) = u ++ [c] := by
    simpa using dropEndWhile_concat isMathDelimiter u [] c hc (by simp)
  unfold stripMath
  dsimp only
  rw [hdrop, hend, decide_eq_false (Nat.lt_irrefl _)]
  rfl

/-- There is nothing to strip off a stripped text. -/
theorem stripMath_eq_self {s : List Char} (hs : IsStripped s) : stripMath s = s := by
  rcases he : endsInEscape s
  · exact stripMath_of_isStripped hs he
  · rcases List.eq_nil_or_concat s with rfl | ⟨u, c, rfl⟩
    · rfl
    · rw [List.concat_eq_append] at hs he ⊢
      exact stripMath_of_core (isMathDelimiter_of_endsInEscape he) hs.start

theorem stripMath_stripMath (t : List Char) : stripMath (stripMath t) = stripMath t := by
  obtain ⟨a, b, -, -, -, hs, -⟩ := stripMath_spec t
  exact stripMath_eq_self hs

/-- Stripping does not change the balance of any text. -/
theorem bracesBalanced_strip (t : List Char) : bracesBalanced (stripMath t) = bracesBalanced t := by
  rcases he : endsInEscape t
  · exact bracesBalanced_stripMath he
  · obtain ⟨a, b, ht, ha, hb, -⟩ := stripMath_spec t
    -- A delimiter at the end would close the escape, so all that is dropped stands at the start.
    obtain rfl : b = [] := by
      rcases List.eq_nil_or_concat b with h | ⟨v, c, rfl⟩
      · exact h
      · rw [List.concat_eq_append] at ht hb
        rw [ht, ← List.append_assoc, ← List.append_assoc] at he
        have hc := hb c (List.mem_append_right v List.mem_cons_self)
        rw [isMathDelimiter_of_endsInEscape he] at hc
        cases hc
    conv => rhs; rw [ht, List.append_nil]
    exact (bracesBalancedFrom_plains 0 _ fun c hc => isPlain_of_isMathDelimiter (ha c hc)).symm

/-- Stripping is canonical: it takes no second turn and keeps the balance.  A text that does not end in
an escape does not end in one when it is stripped, and what is left of it comes back from between dollar
signs and any further delimiters. -/
theorem stripMath_canonical (t : List Char) :
    stripMath (stripMath t) = stripMath t ∧
    (bracesBalanced (stripMath t) = true ↔ bracesBalanced t = true) ∧
    (endsInEscape t = false → endsInEscape (stripMath t) = false ∧
      stripMath ('$' :: (stripMath t ++ ['$'])) = stripMath t ∧
      ∀ a b, (∀ c ∈ a, isMathDelimiter c = true) → (∀ c ∈ b, isMathDelimiter c = true) →
        stripMath (a ++ (stripMath t ++ b)) = stripMath t) := by
  refine ⟨stripMath_stripMath t, by rw [bracesBalanced_strip], fun ht => ?_⟩
  obtain ⟨-, -, -, -, -, hs, hends⟩ := stripMath_spec t
  have he := hends ht
  exact ⟨he, stripMath_wrapped hs he, fun a b => stripMath_around hs he⟩

/-- A dollar sign that is escaped stays, and so does the backslash at the end of a line. -/
theorem stripMath_canonical_escaped :
    endsInEscape "$ x\\$ $".toList = false ∧
      stripMath ('$' :: (stripMath "$ x\\$ $".toList ++ ['$'])) = stripMath "$ x\\$ $".toList ∧
      stripMath "$ x\\$ $".toList = "x\\$".toList := by
  have h : endsInEscape "$ x\\$ $".toList = false := by decide
  exact ⟨h, ((stripMath_canonical "$ x\\$ $".toList).2.2 h).2.1, by decide⟩

end FeynmanTikz
