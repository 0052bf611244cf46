/-
Escapes, braces and math delimiters in the text of a label.

* `escapeInduction`: a text is read one character or one escape at a time,
* `endsInEscape_cons`, `endsInEscape_escape` and `endsInEscape_concat`: whether a text ends in an
  escape, seen from its start and from its end,
* `bracesBalancedFrom_append`: plain characters after a text that does not end in an escape do not
  change its balance,
* `stripMath_spec`: stripping takes delimiters off both ends and leaves a text that is stripped,
* `stripMath_wrapped`: a stripped text comes back from between two dollar signs.
-/
import FeynmanTikz.Proofs.Text.Lines
import FeynmanTikz.Tikz.LabelText

namespace FeynmanTikz

/-! ### Escapes -/

/-- A text is read one character or one escape at a time. -/
@[elab_as_elim]
theorem escapeInduction {motive : List Char → Prop} (nil : motive []) (cut : motive ['\\'])
    (escape : ∀ c t, motive t → motive ('\\' :: c :: t))
    (cons : ∀ c t, c ≠ '\\' → motive t → motive (c :: t)) : ∀ t, motive t
  | [] => nil
  | c :: t => by
    by_cases hc : c = '\\'
    · subst hc
      match t with
      | [] => exact cut
      | d :: t => exact escape d t (escapeInduction nil cut escape cons t)
    · exact cons c t hc (escapeInduction nil cut escape cons t)

/-- The number of backslashes at the end of a text. -/
def trailingEscapes (t : List Char) : Nat := (t.reverse.takeWhile (· == '\\')).length

theorem endsInEscape_eq (t : List Char) : endsInEscape t = (trailingEscapes t % 2 == 1) := rfl

theorem endsInEscape_concat (t : List Char) (c : Char) :
    endsInEscape (t ++ [c]) = (c == '\\' && !endsInEscape t) := by
  have ht : trailingEscapes (t ++ [c]) = if c = '\\' then trailingEscapes t + 1 else 0 := by
    unfold trailingEscapes
    rw [List.reverse_concat, List.takeWhile_cons]
    by_cases hc : c = '\\' <;> simp [hc]
  rw [endsInEscape_eq, endsInEscape_eq, ht]
  by_cases hc : c = '\\'
  · rcases Nat.mod_two_eq_zero_or_one (trailingEscapes t) with h | h <;> simp [hc, h, Nat.add_mod]
  · simp [hc]

theorem endsInEscape_cons {c : Char} (hc : c ≠ '\\') (t : List Char) :
    endsInEscape (c :: t) = endsInEscape t := by
  have ht : trailingEscapes (c :: t) = trailingEscapes t := by
    unfold trailingEscapes
    rw [List.reverse_cons, List.takeWhile_append]
    split
    · rename_i hl
      rw [List.takeWhile_cons, if_neg (by simpa using hc), List.append_nil, hl]
    · rfl
  rw [endsInEscape_eq, endsInEscape_eq, ht]

theorem endsInEscape_escape (c : Char) (t : List Char) :
    endsInEscape ('\\' :: c :: t) = endsInEscape t := by
  have ht : trailingEscapes ('\\' :: c :: t) = trailingEscapes t ∨
      trailingEscapes ('\\' :: c :: t) = trailingEscapes t + 2 := by
    unfold trailingEscapes
    rw [List.reverse_cons, List.reverse_cons, List.append_assoc, List.takeWhile_append]
    split
    · rename_i hl
      by_cases hc : c = '\\'
      · refine .inr ?_
        subst hc
        simp [hl]
      · refine .inl ?_
        simp [hl, hc]
    · exact .inl rfl
  rw [endsInEscape_eq, endsInEscape_eq]
  rcases ht with ht | ht <;> simp [ht]

theorem endsInEscape_append_of_none : ∀ {a : List Char} (t : List Char), '\\' ∉ a →
    endsInEscape (a ++ t) = endsInEscape t
  | [], _, _ => rfl
  | c :: a, t, h => by
    rw [List.mem_cons, not_or] at h
    rw [List.cons_append, endsInEscape_cons (Ne.symm h.1), endsInEscape_append_of_none t h.2]

/-! ### Braces -/

/-- Characters that are neither braces nor escapes. -/
def isPlain (c : Char) : Bool := c != '\\' && c != '\x7b' && c != '\x7d'

theorem bracesBalancedFrom_plain {c : Char} (hc : isPlain c = true) (k : Nat) (t : List Char) :
    bracesBalancedFrom k (c :: t) = bracesBalancedFrom k t := by
  simp only [isPlain, Bool.and_eq_true, bne_iff_ne] at hc
  rw [bracesBalancedFrom.eq_def]
  split <;> simp_all

theorem bracesBalancedFrom_plains (k : Nat) : ∀ {a : List Char} (t : List Char),
    (∀ c ∈ a, isPlain c = true) → bracesBalancedFrom k (a ++ t) = bracesBalancedFrom k t
  | [], _, _ => rfl
  | c :: a, t, h => by
    rw [List.cons_append, bracesBalancedFrom_plain (h c List.mem_cons_self),
      bracesBalancedFrom_plains k t fun c hc => h c (List.mem_cons_of_mem _ hc)]

/-- The last case of `bracesBalancedFrom` is that of plain characters. -/
theorem isPlain_of_other {k : Nat} {c : Char} {rest : List Char} (h₁ : c = '\\' → rest = [] → False)
    (h₂ : ∀ d t, c = '\\' → rest = d :: t → False) (h₃ : c = '\x7b' → False)
    (h₄ : k = 0 → c = '\x7d' → False) (h₅ : ∀ j, k = Nat.succ j → c = '\x7d' → False) :
    isPlain c = true := by
  simp only [isPlain, Bool.and_eq_true, bne_iff_ne]
  refine ⟨⟨fun hc => ?_, h₃⟩, fun hc => ?_⟩
  · cases rest with
    | nil => exact h₁ hc rfl
    | cons d t => exact h₂ d t hc rfl
  · cases k with
    | zero => exact h₄ rfl hc
    | succ j => exact h₅ j rfl hc

theorem bracesBalancedFrom_append {b : List Char} (hb : ∀ c ∈ b, isPlain c = true) (k : Nat)
    (t : List Char) (ht : endsInEscape t = false) :
    bracesBalancedFrom k (t ++ b) = bracesBalancedFrom k t := by
  -- Only at the end of the text does it matter that plain characters follow.
  induction k, t using bracesBalancedFrom.induct with
  | case1 k => simpa using bracesBalancedFrom_plains k [] hb
  | case2 k => exact absurd ht (by decide)
  | case3 k c rest ih =>
    rw [endsInEscape_escape] at ht
    exact ih ht
  | case4 k rest ih =>
    rw [endsInEscape_cons (by decide)] at ht
    exact ih ht
  | case5 rest => rfl
  | case6 k rest ih =>
    rw [endsInEscape_cons (by decide)] at ht
    exact ih ht
  | case7 k c rest h₁ h₂ h₃ h₄ h₅ ih =>
    have hc := isPlain_of_other h₁ h₂ h₃ h₄ h₅
    have hne : c ≠ '\\' := by
      rintro rfl
      exact absurd hc (by decide)
    rw [endsInEscape_cons hne] at ht
    rw [List.cons_append, bracesBalancedFrom_plain hc, bracesBalancedFrom_plain hc]
    exact ih ht

/-! ### Math delimiters -/

theorem isPlain_of_isMathDelimiter {c : Char} (hc : isMathDelimiter c = true) : isPlain c = true := by
  simp only [isPlain, Bool.and_eq_true, bne_iff_ne]
  refine ⟨⟨?_, ?_⟩, ?_⟩
  all_goals
    rintro rfl
    exact absurd hc (by decide)

theorem ne_escape_of_isMathDelimiter {c : Char} (hc : isMathDelimiter c = true) : c ≠ '\\' := by
  rintro rfl
  exact absurd hc (by decide)

/-- A text splits into what is left of it and what is dropped from its end. -/
theorem dropEndWhile_append (p : Char → Bool) (t : List Char) :
    dropEndWhile p t ++ (t.reverse.takeWhile p).reverse = t := by
  rw [dropEndWhile, ← List.reverse_append, List.takeWhile_append_dropWhile, List.reverse_reverse]

/-- What is left ends in a character that is not dropped. -/
theorem dropEndWhile_eq_nil_or (p : Char → Bool) (t : List Char) :
    dropEndWhile p t = [] ∨ ∃ u c, dropEndWhile p t = u ++ [c] ∧ p c = false := by
  unfold dropEndWhile
  cases h : t.reverse.dropWhile p with
  | nil => exact .inl rfl
  | cons c u =>
    refine .inr ⟨u.reverse, c, List.reverse_cons, ?_⟩
    have hc := List.head?_dropWhile_not p t.reverse
    rw [h] at hc
    simpa using hc

theorem dropEndWhile_concat (p : Char → Bool) (u b : List Char) (c : Char) (hc : p c = false)
    (hb : ∀ d ∈ b, p d = true) : dropEndWhile p (u ++ [c] ++ b) = u ++ [c] := by
  unfold dropEndWhile
  rw [List.reverse_append, List.dropWhile_append_of_pos fun d hd => hb d (List.mem_reverse.1 hd),
    List.reverse_concat, List.dropWhile_cons, if_neg (by rw [hc]; decide), ← List.reverse_concat,
    List.reverse_reverse]

/-- A text is what stands before its core, its core, and what stands after it.  One delimiter after
the core stays if the core ends in an escape. -/
theorem stripMath_parts (t : List Char) : ∃ a core b, t = a ++ (core ++ b) ∧
    (∀ c ∈ a, isMathDelimiter c = true) ∧ (∀ c ∈ b, isMathDelimiter c = true) ∧
    (∀ c, (core ++ b).head? = some c → isMathDelimiter c = false) ∧
    (core = [] ∨ ∃ u c, core = u ++ [c] ∧ isMathDelimiter c = false) ∧
    stripMath t = if b ≠ [] ∧ endsInEscape core = true then core ++ b.take 1 else core := by
  have hend := dropEndWhile_append isMathDelimiter (t.dropWhile isMathDelimiter)
  refine ⟨t.takeWhile isMathDelimiter, dropEndWhile isMathDelimiter (t.dropWhile isMathDelimiter),
    ((t.dropWhile isMathDelimiter).reverse.takeWhile isMathDelimiter).reverse, ?_, ?_, ?_, ?_,
    dropEndWhile_eq_nil_or _ _, ?_⟩
  · rw [hend, List.takeWhile_append_dropWhile]
  · exact fun c hc => List.all_eq_true.1 List.all_takeWhile c hc
  · exact fun c hc => List.all_eq_true.1 List.all_takeWhile c (List.mem_reverse.1 hc)
  · intro c hc
    have h := List.head?_dropWhile_not isMathDelimiter t
    rw [hend] at hc
    rw [hc] at h
    simpa using h
  · unfold stripMath
    dsimp only
    generalize hcore : dropEndWhile isMathDelimiter (t.dropWhile isMathDelimiter) = core at hend
    generalize ((t.dropWhile isMathDelimiter).reverse.takeWhile isMathDelimiter).reverse = b at hend
    rw [← hend]
    have hlt : core.length < (core ++ b).length ↔ b ≠ [] := by
      rw [List.length_append, ← List.length_pos_iff]
      omega
    simp only [Bool.and_eq_true, decide_eq_true_eq, hlt, List.take_append, List.take_of_length_le
      (Nat.le_succ core.length), Nat.add_sub_cancel_left]

/-- A text without delimiters at its ends, unless one at its end is escaped. -/
structure IsStripped (s : List Char) : Prop where
  start : ∀ c, s.head? = some c → isMathDelimiter c = false
  finish : s = [] ∨ ∃ u c, s = u ++ [c] ∧ (isMathDelimiter c = false ∨ endsInEscape u = true)

/-- Stripping takes delimiters off both ends and leaves a text that is stripped. -/
theorem stripMath_spec (t : List Char) : ∃ a b, t = a ++ (stripMath t ++ b) ∧
    (∀ c ∈ a, isMathDelimiter c = true) ∧ (∀ c ∈ b, isMathDelimiter c = true) ∧
    IsStripped (stripMath t) ∧ (endsInEscape t = false → endsInEscape (stripMath t) = false) := by
  obtain ⟨a, core, b, ht, ha, hb, hstart, hcore, hs⟩ := stripMath_parts t
  -- If the core ends in an escape, one delimiter stays behind it and closes the escape.
  by_cases hc : b ≠ [] ∧ endsInEscape core = true
  · rw [if_pos hc] at hs
    obtain ⟨d, b, rfl⟩ := List.exists_cons_of_ne_nil hc.1
    rw [hs]
    refine ⟨a, b, by rw [ht]; simp, ha, fun c h => hb c (List.mem_cons_of_mem _ h), ⟨?_, ?_⟩, ?_⟩
    · intro c h
      refine hstart c ?_
      cases core <;> exact h
    · exact .inr ⟨core, d, rfl, .inr hc.2⟩
    · intro _
      have hd : d ≠ '\\' := ne_escape_of_isMathDelimiter (hb d List.mem_cons_self)
      show endsInEscape (core ++ [d]) = false
      rw [endsInEscape_concat]
      simp [hd]
  · rw [if_neg hc] at hs
    rw [hs]
    refine ⟨a, b, ht, ha, hb, ⟨?_, ?_⟩, ?_⟩
    · intro c h
      refine hstart c ?_
      cases core with
      | nil => cases h
      | cons d core => exact h
    · rcases hcore with h | ⟨u, c, h, hd⟩
      · exact .inl h
      · exact .inr ⟨u, c, h, .inl hd⟩
    · intro h
      by_cases hn : b = []
      · rw [ht, hn, List.append_nil, endsInEscape_append_of_none] at h
        · exact h
        · exact fun hm => ne_escape_of_isMathDelimiter (ha _ hm) rfl
      · exact Bool.eq_false_iff.2 fun he => hc ⟨hn, he⟩

theorem mem_of_mem_stripMath {t : List Char} {c : Char} (hc : c ∈ stripMath t) : c ∈ t := by
  obtain ⟨a, b, ht, -⟩ := stripMath_spec t
  rw [ht]
  exact List.mem_append_right _ (List.mem_append_left _ hc)

/-- Stripping does not change the balance of a text that does not end in an escape. -/
theorem bracesBalanced_stripMath {t : List Char} (he : endsInEscape t = false) :
    bracesBalanced (stripMath t) = bracesBalanced t := by
  obtain ⟨a, b, ht, ha, hb, -, hs⟩ := stripMath_spec t
  conv => rhs; rw [ht]
  unfold bracesBalanced
  rw [bracesBalancedFrom_plains 0 _ fun c hc => isPlain_of_isMathDelimiter (ha c hc),
    bracesBalancedFrom_append (fun c hc => isPlain_of_isMathDelimiter (hb c hc)) 0 _ (hs he)]

/-- A stripped text comes back from between delimiters. -/
theorem stripMath_around {a s b : List Char} (hs : IsStripped s) (he : endsInEscape s = false)
    (ha : ∀ c ∈ a, isMathDelimiter c = true) (hb : ∀ c ∈ b, isMathDelimiter c = true) :
    stripMath (a ++ (s ++ b)) = s := by
  unfold stripMath
  dsimp only
  rw [List.dropWhile_append_of_pos ha]
  rcases hs.finish with rfl | ⟨u, c, rfl, hc⟩
  · have hdrop : (b ++ []).dropWhile isMathDelimiter = [] := by
      rw [List.dropWhile_append_of_pos hb, List.dropWhile_nil]
    rw [List.append_nil] at hdrop
    rw [List.nil_append, hdrop]
    rfl
  have hdrop : (u ++ [c] ++ b).dropWhile isMathDelimiter = u ++ [c] ++ b := by
    cases hu : u ++ [c] with
    | nil => simp at hu
    | cons x xs =>
      rw [List.cons_append, List.dropWhile_cons, if_neg]
      rw [hs.start x (by rw [hu]; rfl)]
      decide
  rw [hdrop]
  by_cases hdc : isMathDelimiter c = false
  · rw [dropEndWhile_concat _ u b c hdc hb, he]
    simp
  · -- the last character is an escaped delimiter, so what is dropped starts with it
    have hu : endsInEscape u = true := hc.resolve_left hdc
    have hlast : ∃ v, u = v ++ ['\\'] := by
      rcases List.eq_nil_or_concat u with rfl | ⟨v, x, rfl⟩
      · cases hu
      · rw [List.concat_eq_append, endsInEscape_concat, Bool.and_eq_true, beq_iff_eq] at hu
        exact ⟨v, by rw [List.concat_eq_append, hu.1]⟩
    obtain ⟨v, rfl⟩ := hlast
    have hcore : dropEndWhile isMathDelimiter (v ++ ['\\'] ++ [c] ++ b) = v ++ ['\\'] := by
      rw [List.append_assoc]
      refine dropEndWhile_concat _ v _ '\\' (by decide) fun x hx => ?_
      rcases List.mem_append.1 hx with hx | hx
      · rw [List.mem_singleton.1 hx]
        simpa using hdc
      · exact hb x hx
    have hlen : (v ++ ['\\']).length + 1 = (v ++ ['\\'] ++ [c]).length := by simp
    rw [hcore, hu, if_pos (by simp), hlen, List.take_left]

/-- A stripped text comes back from between two dollar signs. -/
theorem stripMath_wrapped {s : List Char} (hs : IsStripped s) (he : endsInEscape s = false) :
    stripMath ('$' :: (s ++ ['$'])) = s :=
  stripMath_around (a := ['$']) hs he (by decide) (by decide)

/-- Nothing is stripped off a stripped text. -/
theorem stripMath_of_isStripped {s : List Char} (hs : IsStripped s) (he : endsInEscape s = false) :
    stripMath s = s := by
  simpa using stripMath_around (a := []) (b := []) hs he (by simp) (by simp)

end FeynmanTikz
