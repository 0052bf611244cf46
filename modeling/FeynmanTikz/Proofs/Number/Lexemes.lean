/-
Every numeral that is cut out of a text can be read.

The scanner cuts a numeral off the front of a text; the reader is given the numeral alone.  Both go by
the same parts, so nothing that has been cut out is refused.

* `Mantissa.IsRead`: what the parts of a mantissa are made of; `mantissa?_isRead`, `mantissa?_cut`,
  `Mantissa.IsRead.again`:
  a mantissa that has been cut out is found again in front of anything that does not continue it,
* `Exponent.IsRead`, `exponent?_isRead`, `exponent?_cut`, `Exponent.IsRead.again`: the same for a power
  of ten,
* `append_of_numeralLexeme?`, `numeralLexeme?_again`: the same for a numeral,
* `numeralLexeme?_eq_none` and its companions: texts that start with no numeral,
* `ofText?_of_lexeme`: the numeral is read as a whole.
-/
import FeynmanTikz.Proofs.Number.Hundredths

namespace FeynmanTikz

/-! ### Characters of a numeral -/

/-- No script has a decimal digit among the blanks. -/
theorem isBlank_of_isDecimalDigit {c : Char} (h : isDecimalDigit c = true) : isBlank c = false := by
  have hapart : ∀ z ∈ decimalZeros, ∀ r ∈ blankRanges, z + 10 ≤ r.1 ∨ r.2 < z := by decide
  obtain ⟨n, hn⟩ := Option.isSome_iff_exists.1 h
  obtain ⟨z, hz, -⟩ := Option.map_eq_some_iff.1 hn
  have hmem := List.mem_of_find?_eq_some hz
  have hrange := List.find?_some hz
  simp only [Bool.and_eq_true, decide_eq_true_eq] at hrange
  cases hb : isBlank c with
  | false => rfl
  | true =>
    obtain ⟨r, hr, hin⟩ := List.any_eq_true.1 (show inRanges blankRanges c.toNat = true from hb)
    simp only [Bool.and_eq_true, decide_eq_true_eq] at hin
    rcases hapart z hmem r hr with h | h <;> omega

/-- A character that may stand in a numeral. -/
def IsNumeralChar (c : Char) : Prop := isDecimalDigit c = true ∨ c ∈ ['+', '-', '.', 'e', 'E']

theorem IsNumeralChar.inert {c : Char} (h : IsNumeralChar c) : isBlank c = false ∧ c ≠ '_' := by
  rcases h with h | h
  · refine ⟨isBlank_of_isDecimalDigit h, ?_⟩
    rintro rfl
    exact absurd h (by decide)
  · have hall : ∀ c ∈ ['+', '-', '.', 'e', 'E'], isBlank c = false ∧ c ≠ '_' := by decide
    exact hall c h

/-! ### Signs -/

/-- A sign, or none. -/
def IsSign (s : List Char) : Prop := s = [] ∨ s = ['+'] ∨ s = ['-']

theorem isSign_spanSign (t : List Char) : IsSign (spanSign t).1 := by
  unfold spanSign
  split
  · exact .inr (.inl rfl)
  · exact .inr (.inr rfl)
  · exact .inl rfl

theorem append_spanSign (t : List Char) : (spanSign t).1 ++ (spanSign t).2 = t := by
  unfold spanSign
  split <;> rfl

/-- A sign is found again in front of what does not start with one. -/
theorem IsSign.again {s : List Char} (h : IsSign s) {rest : List Char}
    (hr : ∀ c, rest.head? = some c → c ≠ '+' ∧ c ≠ '-') : spanSign (s ++ rest) = (s, rest) := by
  rcases h with rfl | rfl | rfl
  · rw [List.nil_append]
    unfold spanSign
    split
    · exact absurd rfl (hr '+' rfl).1
    · exact absurd rfl (hr '-' rfl).2
    · rfl
  · rfl
  · rfl

theorem IsSign.numeralChars {s : List Char} (h : IsSign s) {c : Char} (hc : c ∈ s) :
    IsNumeralChar c := by
  rcases h with rfl | rfl | rfl
  · cases hc
  all_goals
    obtain rfl := List.mem_singleton.1 hc
    exact .inr (by decide)

/-! ### Mantissas -/

theorem spanDigits_digits {t ds rest : List Char} (h : spanDigits t = (ds, rest)) :
    ∀ c ∈ ds, isDecimalDigit c = true := by
  obtain rfl : t.takeWhile isDecimalDigit = ds := congrArg Prod.fst h
  exact List.all_eq_true.1 List.all_takeWhile

/-- Digits are cut off as far as they go. -/
theorem spanDigits_cut {t ds rest : List Char} (h : spanDigits t = (ds, rest)) :
    t = ds ++ rest ∧ ∀ c, rest.head? = some c → isDecimalDigit c = false := by
  obtain ⟨rfl, rfl⟩ := Prod.mk.inj h
  refine ⟨List.takeWhile_append_dropWhile.symm, fun c hc => ?_⟩
  have hh := List.head?_dropWhile_not isDecimalDigit t
  rw [hc] at hh
  exact hh

/-- What the parts of a mantissa are made of. -/
structure Mantissa.IsRead (m : Mantissa) : Prop where
  whole : ∀ c ∈ m.whole, isDecimalDigit c = true
  fraction : ∀ c ∈ m.fraction, isDecimalDigit c = true
  nonempty : m.whole ≠ [] ∨ m.fraction ≠ []
  /-- Without a point there is no fraction. -/
  pointed : m.point = true ∨ m.fraction = []

theorem mantissa?_isRead {t : List Char} {m : Mantissa} (h : mantissa? t = some m) : m.IsRead := by
  unfold mantissa? at h
  split at h
  · split at h
    · cases h
    · rename_i hne hf
      cases h
      exact ⟨by simp, spanDigits_digits hf, .inr hne, .inl rfl⟩
  · cases h
  · rename_i hne hs
    cases h
    exact ⟨spanDigits_digits hs, spanDigits_digits rfl, .inl hne, .inl rfl⟩
  · rename_i hne _ hs
    cases h
    exact ⟨spanDigits_digits hs, by simp, .inl hne, .inr rfl⟩

/-- Whether a mantissa cannot go on with some text.  It has at most one point. -/
def Mantissa.EndsBefore (m : Mantissa) (rest : List Char) : Prop :=
  ∀ c, rest.head? = some c → isDecimalDigit c = false ∧ (m.point = false → c ≠ '.')

/-- A mantissa is cut off as far as it goes. -/
theorem mantissa?_cut {t : List Char} {m : Mantissa} (h : mantissa? t = some m) :
    t = m.text ++ m.rest ∧ m.EndsBefore m.rest := by
  unfold mantissa? at h
  split at h
  · rename_i rest hs
    obtain ⟨rfl, -⟩ := spanDigits_cut hs
    split at h
    · cases h
    · rename_i fraction rest _ hf
      obtain ⟨rfl, hend⟩ := spanDigits_cut hf
      cases h
      exact ⟨rfl, fun c hc => ⟨hend c hc, fun hp => Bool.noConfusion hp⟩⟩
  · cases h
  · rename_i whole rest _ hs
    obtain ⟨rfl, -⟩ := spanDigits_cut hs
    obtain ⟨hf, hend⟩ := spanDigits_cut (t := rest) rfl
    cases h
    refine ⟨?_, fun c hc => ⟨hend c hc, fun hp => Bool.noConfusion hp⟩⟩
    conv => lhs; rw [hf]
    simp [Mantissa.text]
  · rename_i whole rest _ _ hpoint hs
    obtain ⟨rfl, hend⟩ := spanDigits_cut hs
    cases h
    refine ⟨by simp [Mantissa.text], fun c hc => ⟨hend c hc, ?_⟩⟩
    rintro - rfl
    obtain ⟨more, rfl⟩ : ∃ more, rest = '.' :: more := by
      cases rest with
      | nil => cases hc
      | cons d more => exact ⟨more, congrArg (· :: more) (Option.some.inj hc)⟩
    exact hpoint _ rfl

/-- A mantissa is found again in front of anything that does not continue it. -/
theorem Mantissa.IsRead.again {m : Mantissa} (h : m.IsRead) {rest : List Char}
    (hr : m.EndsBefore rest) : mantissa? (m.text ++ rest) = some { m with rest } := by
  obtain ⟨whole, point, fraction, old⟩ := m
  have hdigit : ∀ c, rest.head? = some c → isDecimalDigit c = false := fun c hc => (hr c hc).1
  cases point with
  | true =>
    show mantissa? (whole ++ ['.'] ++ fraction ++ rest) = _
    rw [List.append_assoc whole, List.singleton_append]
    by_cases hw : whole = []
    · -- The fraction stands alone.
      have hf : fraction ≠ [] := h.nonempty.resolve_left (fun hne => hne hw)
      subst hw
      have h₁ : spanDigits ('.' :: (fraction ++ rest)) = ([], '.' :: (fraction ++ rest)) :=
        @spanDigits_append [] _ (by simp) (by rintro c ⟨⟩; decide)
      unfold mantissa?
      rw [List.nil_append, List.cons_append, h₁]
      obtain ⟨c, f, rfl⟩ := List.exists_cons_of_ne_nil hf
      simp only [spanDigits_append h.fraction hdigit]
    · exact mantissa?_append h.whole hw h.fraction hdigit
  | false =>
    -- Without a point there are only digits, and what follows does not start with a point.
    obtain rfl : fraction = [] := h.pointed.resolve_left (by simp)
    have hw : whole ≠ [] := h.nonempty.resolve_right (fun hne => hne rfl)
    show mantissa? (whole ++ [] ++ [] ++ rest) = _
    rw [List.append_nil, List.append_nil]
    unfold mantissa?
    rw [spanDigits_append h.whole hdigit]
    obtain ⟨c, w, rfl⟩ := List.exists_cons_of_ne_nil hw
    split
    · rename_i heq
      cases heq
    · rename_i heq
      cases heq
    · rename_i heq
      cases heq
      exact absurd rfl ((hr '.' rfl).2 rfl)
    · rename_i heq
      cases heq
      rfl

/-- A mantissa starts with a digit or a point. -/
theorem Mantissa.IsRead.head {m : Mantissa} (h : m.IsRead) : ∃ c t, m.text = c :: t ∧
    (isDecimalDigit c = true ∨ c = '.') := by
  obtain ⟨whole, point, fraction, rest⟩ := m
  cases whole with
  | cons c w =>
    exact ⟨c, _, by rw [Mantissa.text, List.cons_append, List.cons_append],
      .inl (h.whole c List.mem_cons_self)⟩
  | nil =>
    have hf : fraction ≠ [] := h.nonempty.resolve_left (fun hne => hne rfl)
    obtain rfl : point = true := h.pointed.resolve_right hf
    exact ⟨'.', fraction, rfl, .inr rfl⟩

theorem Mantissa.IsRead.numeralChars {m : Mantissa} (h : m.IsRead) {c : Char} (hc : c ∈ m.text) :
    IsNumeralChar c := by
  unfold Mantissa.text at hc
  rcases List.mem_append.1 hc with hc | hc
  · rcases List.mem_append.1 hc with hc | hc
    · exact .inl (h.whole c hc)
    · split at hc
      · obtain rfl := List.mem_singleton.1 hc
        exact .inr (by decide)
      · cases hc
  · exact .inl (h.fraction c hc)

/-! ### Powers of ten -/

/-- The power of ten as it is written. -/
def Exponent.text (e : Exponent) : List Char := e.mark ++ e.sign ++ e.digits

/-- What the parts of a power of ten are made of. -/
structure Exponent.IsRead (e : Exponent) : Prop where
  mark : e.mark = ['e'] ∨ e.mark = ['E']
  sign : IsSign e.sign
  digits : ∀ c ∈ e.digits, isDecimalDigit c = true
  nonempty : e.digits ≠ []

theorem exponent?_isRead {t : List Char} {e : Exponent} (h : exponent? t = some e) : e.IsRead := by
  unfold exponent? at h
  split at h
  · rename_i c rest
    split at h
    · rename_i hc
      dsimp only at h
      split at h
      · cases h
      · rename_i hne hd
        cases h
        exact ⟨hc.imp (congrArg fun c => [c]) (congrArg fun c => [c]), isSign_spanSign rest,
          spanDigits_digits hd, hne⟩
    · cases h
  · cases h

/-- A power of ten is cut off as far as it goes. -/
theorem exponent?_cut {t : List Char} {e : Exponent} (h : exponent? t = some e) :
    t = e.text ++ e.rest ∧ ∀ c, e.rest.head? = some c → isDecimalDigit c = false := by
  unfold exponent? at h
  split at h
  · rename_i c rest
    split at h
    · dsimp only at h
      split at h
      · cases h
      · rename_i digits more _ hd
        obtain ⟨hcut, hend⟩ := spanDigits_cut hd
        cases h
        refine ⟨?_, hend⟩
        show c :: rest = [c] ++ (spanSign rest).1 ++ digits ++ more
        rw [List.append_assoc, ← hcut, List.append_assoc, append_spanSign, List.singleton_append]
    · cases h
  · cases h

/-- A power of ten is found again in front of what does not continue it. -/
theorem Exponent.IsRead.again {e : Exponent} (h : e.IsRead) {rest : List Char}
    (hr : ∀ c, rest.head? = some c → isDecimalDigit c = false) :
    exponent? (e.text ++ rest) = some { e with rest } := by
  obtain ⟨mark, sign, digits, old⟩ := e
  obtain ⟨c, hc, rfl⟩ : ∃ c, (c = 'e' ∨ c = 'E') ∧ mark = [c] :=
    h.mark.elim (fun hm => ⟨'e', .inl rfl, hm⟩) fun hm => ⟨'E', .inr rfl, hm⟩
  obtain ⟨d, ds, rfl⟩ := List.exists_cons_of_ne_nil h.nonempty
  have hsign : spanSign (sign ++ (d :: ds ++ rest)) = (sign, d :: ds ++ rest) := by
    have hd : ∀ c, (d :: ds ++ rest).head? = some c → c ≠ '+' ∧ c ≠ '-' := by
      rintro c ⟨⟩
      have := h.digits d List.mem_cons_self
      constructor
      all_goals
        rintro rfl
        exact absurd this (by decide)
    exact h.sign.again hd
  have hdigits : spanDigits (d :: ds ++ rest) = (d :: ds, rest) := spanDigits_append h.digits hr
  show exponent? ([c] ++ sign ++ d :: ds ++ rest) = _
  rw [List.append_assoc, List.append_assoc, List.singleton_append, exponent?, if_pos hc, hsign]
  simp only [hdigits]

theorem Exponent.IsRead.numeralChars {e : Exponent} (h : e.IsRead) {c : Char} (hc : c ∈ e.text) :
    IsNumeralChar c := by
  unfold Exponent.text at hc
  rcases List.mem_append.1 hc with hc | hc
  · rcases List.mem_append.1 hc with hc | hc
    · rcases h.mark with hm | hm
      all_goals
        rw [hm] at hc
        obtain rfl := List.mem_singleton.1 hc
        exact .inr (by decide)
    · exact h.sign.numeralChars hc
  · exact .inl (h.digits c hc)

/-- A power of ten does not continue a mantissa. -/
theorem Exponent.IsRead.endsMantissa {e : Exponent} (h : e.IsRead) (m : Mantissa)
    (rest : List Char) : m.EndsBefore (e.text ++ rest) := by
  intro c hc
  unfold Exponent.text at hc
  rcases h.mark with hm | hm
  all_goals
    rw [hm] at hc
    obtain rfl := Option.some.inj hc
    exact ⟨by decide, fun _ => by decide⟩

/-! ### Whole numerals -/

/-- A sign, a mantissa and perhaps a power of ten. -/
structure IsNumeral (text : List Char) (sign : List Char) (m : Mantissa) (tail : List Char) :
    Prop where
  eq : text = sign ++ (m.text ++ tail)
  sign : IsSign sign
  mantissa : m.IsRead
  tail : tail = [] ∨ ∃ e, Exponent.IsRead e ∧ tail = e.text

theorem isNumeral_of_lexeme {t text rest : List Char} (h : numeralLexeme? t = some (text, rest)) :
    ∃ sign m tail, IsNumeral text sign m tail := by
  unfold numeralLexeme? at h
  dsimp only at h
  cases hm : mantissa? (spanSign t).2 with
  | none =>
    rw [hm] at h
    cases h
  | some m =>
    rw [hm, Option.bind_eq_bind, Option.bind_some] at h
    cases he : exponent? m.rest with
    | none =>
      rw [he] at h
      cases h
      exact ⟨_, m, [], by simp, isSign_spanSign t, mantissa?_isRead hm, .inl rfl⟩
    | some e =>
      rw [he] at h
      cases h
      exact ⟨_, m, e.text, by simp [Exponent.text], isSign_spanSign t, mantissa?_isRead hm,
        .inr ⟨e, exponent?_isRead he, rfl⟩⟩

namespace IsNumeral

variable {text sign tail : List Char} {m : Mantissa}

theorem numeralChars (h : IsNumeral text sign m tail) {c : Char} (hc : c ∈ text) :
    IsNumeralChar c := by
  rw [h.eq] at hc
  rcases List.mem_append.1 hc with hc | hc
  · exact h.sign.numeralChars hc
  · rcases List.mem_append.1 hc with hc | hc
    · exact h.mantissa.numeralChars hc
    · rcases h.tail with rfl | ⟨e, he, rfl⟩
      · cases hc
      · exact he.numeralChars hc

theorem ne_nil (h : IsNumeral text sign m tail) : text ≠ [] := by
  obtain ⟨c, t, htext, -⟩ := h.mantissa.head
  rw [h.eq, htext]
  simp

/-- The reader finds the parts again. -/
theorem ofDigits? (h : IsNumeral text sign m tail) : ∃ n, Numeral.ofDigits? text = some n := by
  have hsign : spanSign text = (sign, m.text ++ tail) := by
    rw [h.eq]
    refine h.sign.again fun c hc => ?_
    obtain ⟨d, ds, htext, hd⟩ := h.mantissa.head
    rw [htext, List.cons_append] at hc
    obtain rfl : d = c := Option.some.inj hc
    constructor
    all_goals
      rintro rfl
      exact absurd hd (by decide)
  unfold Numeral.ofDigits?
  rw [hsign]
  dsimp only
  rcases h.tail with rfl | ⟨e, he, rfl⟩
  · have hends : m.EndsBefore [] := by rintro c ⟨⟩
    rw [h.mantissa.again hends]
    exact ⟨_, rfl⟩
  · have hmantissa := h.mantissa.again (he.endsMantissa m [])
    have hexponent : exponent? (e.text ++ []) = some { e with rest := [] } := he.again (by rintro c ⟨⟩)
    rw [List.append_nil] at hmantissa hexponent
    rw [hmantissa]
    dsimp only
    rw [hexponent]
    split
    · exact ⟨_, rfl⟩
    · rename_i heq _
      cases heq
      exact ⟨_, rfl⟩
    · rename_i heq _
      cases heq

end IsNumeral

/-- A numeral is cut off the front of a text. -/
theorem append_of_numeralLexeme? {t text rest : List Char}
    (h : numeralLexeme? t = some (text, rest)) : t = text ++ rest := by
  unfold numeralLexeme? at h
  dsimp only at h
  obtain ⟨m, hm, h⟩ := Option.bind_eq_some_iff.1 h
  obtain ⟨hcut, -⟩ := mantissa?_cut hm
  cases he : exponent? m.rest with
  | none =>
    rw [he] at h
    cases h
    rw [List.append_assoc, ← hcut, append_spanSign]
  | some e =>
    rw [he] at h
    cases h
    have hrest : m.rest = e.mark ++ e.sign ++ e.digits ++ e.rest := (exponent?_cut he).1
    simp only [List.append_assoc] at hrest ⊢
    rw [← hrest, ← hcut, append_spanSign]

/-- A numeral starts with the character the text starts with. -/
theorem cons_of_numeralLexeme? {c : Char} {rest text more : List Char}
    (h : numeralLexeme? (c :: rest) = some (text, more)) :
    ∃ digits, text = c :: digits ∧ digits ++ more = rest := by
  have hcut := append_of_numeralLexeme? h
  obtain ⟨sign, m, tail, hn⟩ := isNumeral_of_lexeme h
  obtain ⟨d, digits, rfl⟩ := List.exists_cons_of_ne_nil hn.ne_nil
  obtain ⟨rfl, rfl⟩ := List.cons.inj hcut
  exact ⟨digits, rfl, rfl⟩

/-- A numeral is found again in front of what starts like the text it has been cut from, or with
nothing that could continue it. -/
theorem numeralLexeme?_again {t text rest rest' : List Char}
    (h : numeralLexeme? t = some (text, rest))
    (hr : ∀ c, rest'.head? = some c → rest.head? = some c ∨ isDecimalDigit c = false ∧ c ≠ '.')
    (he : exponent? rest = none → exponent? rest' = none) :
    numeralLexeme? (text ++ rest') = some (text, rest') := by
  unfold numeralLexeme? at h
  dsimp only at h
  obtain ⟨m, hm, h⟩ := Option.bind_eq_some_iff.1 h
  have hread := mantissa?_isRead hm
  obtain ⟨-, hend⟩ := mantissa?_cut hm
  have hsign (u : List Char) : spanSign ((spanSign t).1 ++ (m.text ++ u)) =
      ((spanSign t).1, m.text ++ u) := by
    refine (isSign_spanSign t).again fun c hc => ?_
    obtain ⟨d, ds, htext, hd⟩ := hread.head
    rw [htext] at hc
    obtain rfl : d = c := Option.some.inj hc
    constructor
    all_goals
      rintro rfl
      exact absurd hd (by decide)
  cases hexp : exponent? m.rest with
  | none =>
    rw [hexp] at h
    cases h
    have hends : m.EndsBefore rest' := by
      intro c hc
      rcases hr c hc with hc | hc
      · exact hend c hc
      · exact ⟨hc.1, fun _ => hc.2⟩
    unfold numeralLexeme?
    rw [List.append_assoc, hsign]
    dsimp only
    rw [hread.again hends, Option.bind_eq_bind, Option.bind_some]
    dsimp only
    rw [he hexp]
    rfl
  | some e =>
    rw [hexp] at h
    cases h
    have hends : ∀ c, rest'.head? = some c → isDecimalDigit c = false := by
      intro c hc
      rcases hr c hc with hc | hc
      · exact (exponent?_cut hexp).2 c hc
      · exact hc.1
    have heread := exponent?_isRead hexp
    have hassoc : (spanSign t).1 ++ m.text ++ e.mark ++ e.sign ++ e.digits ++ rest' =
        (spanSign t).1 ++ (m.text ++ (e.text ++ rest')) := by
      simp [Exponent.text]
    unfold numeralLexeme?
    rw [hassoc, hsign]
    dsimp only
    rw [hread.again (heread.endsMantissa m rest'), Option.bind_eq_bind, Option.bind_some]
    dsimp only
    rw [heread.again hends]
    rfl

/-! ### Texts that start with no numeral -/

theorem mantissa?_eq_none {c : Char} {t : List Char} (hd : isDecimalDigit c = false) (hp : c ≠ '.') :
    mantissa? (c :: t) = none := by
  have hspan : spanDigits (c :: t) = ([], c :: t) := by simp [spanDigits, hd]
  unfold mantissa?
  rw [hspan]
  split
  · rename_i h
    exact absurd (List.cons.inj (Prod.mk.inj h).2).1 hp
  · rfl
  · rename_i h
    simp_all
  · rename_i h
    simp_all

/-- A numeral starts with a sign, a digit or a point. -/
theorem numeralLexeme?_eq_none {c : Char} {t : List Char} (hd : isDecimalDigit c = false)
    (hc : c ∉ ['+', '-', '.']) : numeralLexeme? (c :: t) = none := by
  simp only [List.mem_cons, List.not_mem_nil, or_false, not_or] at hc
  have hs : spanSign (c :: t) = ([], c :: t) :=
    IsSign.again (.inl rfl) (by rintro _ ⟨⟩; exact ⟨hc.1, hc.2.1⟩)
  unfold numeralLexeme?
  rw [hs]
  simp [mantissa?_eq_none hd hc.2.2]

/-- Two dashes are no numeral. -/
theorem numeralLexeme?_dashes (t : List Char) : numeralLexeme? ('-' :: '-' :: t) = none := by
  unfold numeralLexeme?
  simp [spanSign, mantissa?_eq_none (c := '-') (by decide) (by decide)]

/-- Two dots are no numeral. -/
theorem numeralLexeme?_dots (t : List Char) : numeralLexeme? ('.' :: '.' :: t) = none := by
  have hspan (u : List Char) : spanDigits ('.' :: u) = ([], '.' :: u) :=
    @spanDigits_append [] _ (by simp) (by rintro c ⟨⟩; decide)
  unfold numeralLexeme? mantissa?
  simp [spanSign, hspan]

/-! ### Reading numerals -/

/-- Every numeral that is cut out of a text is read as a whole. -/
theorem ofText?_of_lexeme {t text rest : List Char} (h : numeralLexeme? t = some (text, rest)) :
    ∃ n, Numeral.ofText? text = some n := by
  obtain ⟨sign, m, tail, hn⟩ := isNumeral_of_lexeme h
  -- There is nothing around the numeral and nothing in it that would be dropped.
  have houter : ∀ c ∈ text, Numeral.isOuterBlank c = false := by
    intro c hc
    simp [Numeral.isOuterBlank, (hn.numeralChars hc).inert.1]
  have hplain : '_' ∉ text := fun hc => (hn.numeralChars hc).inert.2 rfl
  unfold Numeral.ofText?
  rw [dropWhile_of_none houter, dropEndWhile_of_none houter]
  dsimp only
  cases Numeral.ofName? text with
  | some n => exact ⟨n, rfl⟩
  | none =>
    obtain ⟨n, hdigits⟩ := hn.ofDigits?
    refine ⟨n, ?_⟩
    rw [Hundredths.withoutUnderscores?_of_none none hplain]
    exact hdigits

end FeynmanTikz
