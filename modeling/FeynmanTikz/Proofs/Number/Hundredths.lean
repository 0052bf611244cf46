/-
Numerals with two decimals: what they look like and what they are read as.

Every number of a document is written with two decimals, so it is a sign and a count of hundredths.

* `Hundredths.text`: the numeral, `-0.05`, and `fixed_two`: this is what is printed,
* `digitsValue_digits`: from the digits of a number the number can be read back,
* `numeralLexeme?_text`: the numeral is a lexeme wherever no digit and no power of ten follows,
* `ofText?_text`: the whole text as a numeral.
-/
import FeynmanTikz.Number.Decimal
import FeynmanTikz.Number.Numeral
import FeynmanTikz.Proofs.Text.Lines

namespace FeynmanTikz

/-! ### Decimal digits -/

theorem decimalDigit?_of_isDigit {c : Char} (h : c.isDigit = true) :
    decimalDigit? c = some (c.toNat - 48) := by
  have hc : 48 ≤ c.toNat ∧ c.toNat < 58 := by
    simp only [Char.isDigit, Bool.and_eq_true, decide_eq_true_eq, ge_iff_le] at h
    obtain ⟨h1, h2⟩ := h
    have h1' : (48 : Nat) ≤ c.val.toNat := UInt32.le_iff_toNat_le.1 h1
    have h2' : c.val.toNat ≤ 57 := UInt32.le_iff_toNat_le.1 h2
    exact ⟨h1', Nat.lt_succ_of_le h2'⟩
  simp [decimalDigit?, decimalZeros, hc]

/-- Digits of ASCII. -/
def AreDigits (ds : List Char) : Prop := ∀ c ∈ ds, c.isDigit = true

theorem AreDigits.append {ds es : List Char} (hd : AreDigits ds) (he : AreDigits es) :
    AreDigits (ds ++ es) := by
  intro c hc
  rcases List.mem_append.1 hc with hc | hc
  · exact hd c hc
  · exact he c hc

theorem AreDigits.isDecimalDigit {ds : List Char} (hd : AreDigits ds) {c : Char} (hc : c ∈ ds) :
    isDecimalDigit c = true :=
  isDecimalDigit_of_isDigit (hd c hc)

theorem areDigits_decimalDigits (n : Nat) : AreDigits (decimalDigits n) :=
  fun _ hc => Nat.isDigit_of_mem_toDigits (by omega) (by omega) hc

theorem decimalDigits_ne_nil (n : Nat) : decimalDigits n ≠ [] := Nat.toDigits_ne_nil

/-- On digits of ASCII the value is the usual one. -/
theorem digitsValue_of_areDigits {ds : List Char} (h : AreDigits ds) :
    digitsValue ds = Nat.ofDigitChars 10 ds 0 := by
  have key : ∀ (ds : List Char), AreDigits ds → ∀ n : Nat,
      ds.foldl (fun n c => 10 * n + (decimalDigit? c).getD 0) n = Nat.ofDigitChars 10 ds n := by
    intro ds
    induction ds with
    | nil => intro _ n; rfl
    | cons c ds ih =>
      intro h n
      rw [List.foldl_cons, decimalDigit?_of_isDigit (h c List.mem_cons_self),
        Nat.ofDigitChars_cons]
      exact ih (fun c hc => h c (List.mem_cons_of_mem _ hc)) _
  exact key ds h 0

theorem digitsValue_decimalDigits (n : Nat) : digitsValue (decimalDigits n) = n := by
  rw [digitsValue_of_areDigits (areDigits_decimalDigits n)]
  exact Nat.ofDigitChars_ten_toDigits

theorem digitsValue_zeros_append (k : Nat) {ds : List Char} (h : AreDigits ds) :
    digitsValue (List.replicate k '0' ++ ds) = digitsValue ds := by
  have hz : AreDigits (List.replicate k '0') := by
    intro c hc
    rw [List.eq_of_mem_replicate hc]
    rfl
  rw [digitsValue_of_areDigits (hz.append h), digitsValue_of_areDigits h,
    Nat.ofDigitChars_append, Nat.ofDigitChars_replicate_zero, Nat.mul_zero]

/-! ### Two decimals -/

/-- A number of hundredths with its sign, which a zero has as well. -/
structure Hundredths where
  negative : Bool
  count : Nat
deriving DecidableEq

namespace Hundredths

/-- The digits of a number of hundredths, three at least. -/
def digits (n : Nat) : List Char :=
  List.replicate (3 - (decimalDigits n).length) '0' ++ decimalDigits n

def whole (n : Nat) : List Char := (digits n).take ((digits n).length - 2)

def fraction (n : Nat) : List Char := (digits n).drop ((digits n).length - 2)

/-- The numeral. -/
def text (h : Hundredths) : List Char :=
  (if h.negative then ['-'] else []) ++ (whole h.count ++ '.' :: fraction h.count)

def string (h : Hundredths) : String := String.ofList h.text

/-- What the numeral says. -/
def numeral (h : Hundredths) : Numeral := .decimal h.negative h.count (-2)

theorem areDigits_digits (n : Nat) : AreDigits (digits n) := by
  refine AreDigits.append (fun c hc => ?_) (areDigits_decimalDigits n)
  rw [List.eq_of_mem_replicate hc]
  rfl

theorem three_le_length_digits (n : Nat) : 3 ≤ (digits n).length := by
  unfold digits
  rw [List.length_append, List.length_replicate]
  omega

theorem areDigits_whole (n : Nat) : AreDigits (whole n) :=
  fun c hc => areDigits_digits n c (List.mem_of_mem_take hc)

theorem areDigits_fraction (n : Nat) : AreDigits (fraction n) :=
  fun c hc => areDigits_digits n c (List.mem_of_mem_drop hc)

theorem length_fraction (n : Nat) : (fraction n).length = 2 := by
  have := three_le_length_digits n
  unfold fraction
  rw [List.length_drop]
  omega

theorem whole_ne_nil (n : Nat) : whole n ≠ [] := by
  have := three_le_length_digits n
  intro h
  have hl : (whole n).length = 0 := by rw [h]; rfl
  unfold whole at hl
  rw [List.length_take] at hl
  omega

theorem whole_append_fraction (n : Nat) : whole n ++ fraction n = digits n :=
  List.take_append_drop _ _

theorem digitsValue_digits (n : Nat) : digitsValue (digits n) = n := by
  unfold digits
  rw [digitsValue_zeros_append _ (areDigits_decimalDigits n), digitsValue_decimalDigits]

/-- What is printed with two decimals. -/
theorem fixed_two (negative : Bool) (q : Rat) :
    fixed 2 (.finite negative q) =
      string ⟨negative, (nearestInt (q.abs * (10 : Rat) ^ (2 : Int))).toNat⟩ := rfl

end Hundredths

/-! ### Reading numerals -/

/-- Whether a numeral that has been read so far cannot go on with some text. -/
def EndsNumeral (rest : List Char) : Prop :=
  ∀ c, rest.head? = some c → isDecimalDigit c = false ∧ c ≠ 'e' ∧ c ≠ 'E'

theorem dropWhile_of_none {p : Char → Bool} : ∀ {t : List Char}, (∀ c ∈ t, p c = false) →
    t.dropWhile p = t
  | [], _ => rfl
  | c :: _, h => by rw [List.dropWhile_cons, if_neg (by rw [h c List.mem_cons_self]; decide)]

theorem dropEndWhile_of_none {p : Char → Bool} {t : List Char} (h : ∀ c ∈ t, p c = false) :
    dropEndWhile p t = t := by
  unfold dropEndWhile
  rw [dropWhile_of_none fun c hc => h c (List.mem_reverse.1 hc), List.reverse_reverse]

theorem spanDigits_append {ds rest : List Char} (hd : ∀ c ∈ ds, isDecimalDigit c = true)
    (hr : ∀ c, rest.head? = some c → isDecimalDigit c = false) :
    spanDigits (ds ++ rest) = (ds, rest) := by
  have htake : rest.takeWhile isDecimalDigit = [] := by
    cases rest with
    | nil => rfl
    | cons c rest => simp [hr c rfl]
  have hdrop : rest.dropWhile isDecimalDigit = rest := by
    cases rest with
    | nil => rfl
    | cons c rest => simp [hr c rfl]
  unfold spanDigits
  rw [List.takeWhile_append_of_pos hd, List.dropWhile_append_of_pos hd, htake, hdrop,
    List.append_nil]

/-- Digits, a point and digits are a mantissa. -/
theorem mantissa?_append {w f rest : List Char} (hw : ∀ c ∈ w, isDecimalDigit c = true)
    (hne : w ≠ []) (hf : ∀ c ∈ f, isDecimalDigit c = true)
    (hr : ∀ c, rest.head? = some c → isDecimalDigit c = false) :
    mantissa? (w ++ '.' :: f ++ rest) = some ⟨w, true, f, rest⟩ := by
  have h1 : spanDigits (w ++ '.' :: f ++ rest) = (w, '.' :: (f ++ rest)) := by
    rw [List.append_assoc, List.cons_append]
    refine spanDigits_append hw ?_
    rintro c ⟨⟩
    decide
  unfold mantissa?
  rw [h1]
  obtain ⟨c, w, rfl⟩ := List.exists_cons_of_ne_nil hne
  simp only [spanDigits_append hf hr]

theorem spanSign_of_digit {t : List Char} (ht : ∀ c, t.head? = some c → c.isDigit = true) :
    spanSign t = ([], t) := by
  unfold spanSign
  split
  · exact absurd (ht _ rfl) (by decide)
  · exact absurd (ht _ rfl) (by decide)
  · rfl

namespace Hundredths

/-- The sign as it is written. -/
def sign (h : Hundredths) : List Char := if h.negative then ['-'] else []

theorem text_eq (h : Hundredths) : h.text = h.sign ++ (whole h.count ++ '.' :: fraction h.count) :=
  rfl

theorem head_whole (n : Nat) : ∃ c w, whole n = c :: w ∧ c.isDigit = true := by
  obtain ⟨c, w, hw⟩ := List.exists_cons_of_ne_nil (whole_ne_nil n)
  exact ⟨c, w, hw, areDigits_whole n c (by rw [hw]; exact List.mem_cons_self)⟩

/-- A numeral starts with a digit, or with a minus sign and a digit. -/
theorem head_text (h : Hundredths) : ∃ c more, h.text = c :: more ∧
    (c.isDigit = true ∨ (c = '-' ∧ ∃ d rest, more = d :: rest ∧ d.isDigit = true)) := by
  obtain ⟨c, w, hw, hc⟩ := head_whole h.count
  obtain ⟨negative, n⟩ := h
  cases negative
  · exact ⟨c, w ++ '.' :: fraction n, by rw [text_eq, hw]; rfl, .inl hc⟩
  · exact ⟨'-', c :: (w ++ '.' :: fraction n), by rw [text_eq, hw]; rfl, .inr ⟨rfl, c, _, rfl, hc⟩⟩

theorem spanSign_text (h : Hundredths) (rest : List Char) :
    spanSign (h.text ++ rest) = (h.sign, whole h.count ++ '.' :: fraction h.count ++ rest) := by
  obtain ⟨negative, n⟩ := h
  cases negative
  · refine spanSign_of_digit fun c hc => ?_
    obtain ⟨d, w, hw, hd⟩ := head_whole n
    simp only [text, hw] at hc
    cases hc
    exact hd
  · rfl

theorem mantissa?_text (n : Nat) {rest : List Char}
    (hr : ∀ c, rest.head? = some c → isDecimalDigit c = false) :
    mantissa? (whole n ++ '.' :: fraction n ++ rest) = some ⟨whole n, true, fraction n, rest⟩ :=
  mantissa?_append (fun _ hc => (areDigits_whole n).isDecimalDigit hc) (whole_ne_nil n)
    (fun _ hc => (areDigits_fraction n).isDecimalDigit hc) hr

theorem exponent?_of_endsNumeral {rest : List Char} (hr : EndsNumeral rest) :
    exponent? rest = none := by
  cases rest with
  | nil => rfl
  | cons c rest =>
    obtain ⟨-, h1, h2⟩ := hr c rfl
    rw [exponent?, if_neg (by simp [h1, h2])]

/-- The numeral is a lexeme. -/
theorem numeralLexeme?_text (h : Hundredths) {rest : List Char} (hr : EndsNumeral rest) :
    numeralLexeme? (h.text ++ rest) = some (h.text, rest) := by
  unfold numeralLexeme?
  rw [spanSign_text]
  simp only [mantissa?_text h.count fun c hc => (hr c hc).1, Option.bind_eq_bind, Option.bind_some,
    exponent?_of_endsNumeral hr]
  simp [Mantissa.text, text_eq]

/-! ### The whole text as a numeral -/

theorem isDigit_or_of_mem_text {h : Hundredths} {c : Char} (hc : c ∈ h.text) :
    c = '-' ∨ c = '.' ∨ c.isDigit = true := by
  rw [text_eq, List.mem_append, List.mem_append, List.mem_cons] at hc
  rcases hc with hc | hc | hc | hc
  · unfold sign at hc
    split at hc
    · exact .inl (List.mem_singleton.1 hc)
    · cases hc
  · exact .inr (.inr (areDigits_whole _ c hc))
  · exact .inr (.inl hc)
  · exact .inr (.inr (areDigits_fraction _ c hc))

end Hundredths

theorem toNat_of_isDigit {c : Char} (h : c.isDigit = true) : 48 ≤ c.toNat ∧ c.toNat ≤ 57 := by
  simp only [Char.isDigit, Bool.and_eq_true, decide_eq_true_eq, ge_iff_le] at h
  exact ⟨UInt32.le_iff_toNat_le.1 h.1, UInt32.le_iff_toNat_le.1 h.2⟩

theorem isBlank_of_isDigit {c : Char} (h : c.isDigit = true) : isBlank c = false := by
  have := toNat_of_isDigit h
  simp only [isBlank, inRanges, blankRanges, List.any_cons, List.any_nil, Bool.or_false,
    Bool.or_eq_false_iff, Bool.and_eq_false_iff, decide_eq_false_iff_not]
  omega

namespace Hundredths

theorem isBlank_of_mem_text {h : Hundredths} {c : Char} (hc : c ∈ h.text) : isBlank c = false := by
  rcases isDigit_or_of_mem_text hc with rfl | rfl | hd
  · decide
  · decide
  · exact isBlank_of_isDigit hd

theorem withoutUnderscores?_of_none : ∀ {t : List Char} (before : Option Char), '_' ∉ t →
    Numeral.withoutUnderscores? before t = some t
  | [], _, _ => rfl
  | c :: t, before, h => by
    rw [List.mem_cons, not_or] at h
    unfold Numeral.withoutUnderscores?
    split
    · contradiction
    · rename_i hc
      exact absurd (List.cons.inj hc).1.symm h.1
    · rename_i hc
      cases hc
      rw [withoutUnderscores?_of_none (some c) h.2]
      rfl

/-- What starts with a digit is no name. -/
theorem ofName?_text (h : Hundredths) : Numeral.ofName? h.text = none := by
  have hs : spanSign h.text = (h.sign, whole h.count ++ '.' :: fraction h.count) := by
    simpa using h.spanSign_text []
  obtain ⟨c, w, hw, hc⟩ := head_whole h.count
  -- Names are compared in lower case, and digits have none.
  have hl : (lowerChar c).isDigit = true := by
    have hn := toNat_of_isDigit hc
    unfold lowerChar
    rw [if_neg (by omega)]
    refine (congrArg Char.isDigit (dif_neg ?_)).trans hc
    intro hu
    have : 65 ≤ c.toNat := UInt32.le_iff_toNat_le.1 hu.1
    omega
  have hne (d : Char) (t : List Char) (hd : d.isDigit = false) :
      String.ofList (lower (whole h.count ++ '.' :: fraction h.count)) ≠ String.ofList (d :: t) := by
    intro he
    rw [String.ofList_inj, hw] at he
    rw [show lowerChar c = d from (List.cons.inj he).1, hd] at hl
    cases hl
  unfold Numeral.ofName?
  rw [hs]
  dsimp only
  split
  · rename_i he
    exact absurd he (hne 'i' ['n', 'f'] rfl)
  · rename_i he
    exact absurd he (hne 'i' ['n', 'f', 'i', 'n', 'i', 't', 'y'] rfl)
  · rename_i he
    exact absurd he (hne 'n' ['a', 'n'] rfl)
  · rfl

theorem isMinus_sign (h : Hundredths) : Numeral.isMinus h.sign = h.negative := by
  obtain ⟨negative, n⟩ := h
  cases negative <;> rfl

theorem ofDigits?_text (h : Hundredths) : Numeral.ofDigits? h.text = some h.numeral := by
  have hs : spanSign h.text = (h.sign, whole h.count ++ '.' :: fraction h.count ++ []) := by
    simpa using h.spanSign_text []
  have hm : mantissa? (whole h.count ++ '.' :: fraction h.count ++ []) =
      some ⟨whole h.count, true, fraction h.count, []⟩ :=
    mantissa?_text h.count fun c hc => by cases hc
  unfold Numeral.ofDigits?
  rw [hs]
  simp only [hm]
  rw [Numeral.ofParts, isMinus_sign]
  dsimp only
  rw [whole_append_fraction, digitsValue_digits, length_fraction]
  rfl

/-- The whole text as a numeral. -/
theorem ofText?_text (h : Hundredths) : Numeral.ofText? h.text = some h.numeral := by
  have hb : ∀ c ∈ h.text, Numeral.isOuterBlank c = false := by
    intro c hc
    rw [Numeral.isOuterBlank, isBlank_of_mem_text hc]
    rfl
  have hu : '_' ∉ h.text := by
    intro hm
    rcases isDigit_or_of_mem_text hm with he | he | he
    · exact absurd he (by decide)
    · exact absurd he (by decide)
    · exact absurd he (by decide)
  unfold Numeral.ofText?
  dsimp only
  rw [dropWhile_of_none hb, dropEndWhile_of_none hb, ofName?_text]
  dsimp only
  rw [withoutUnderscores?_of_none none hu]
  exact h.ofDigits?_text

theorem string_injective : Function.Injective string := by
  intro h k hk
  have hnumeral : some h.numeral = some k.numeral := by
    rw [← h.ofText?_text, ← k.ofText?_text, String.ofList_injective hk]
  cases h
  cases k
  cases hnumeral
  rfl

end Hundredths

end FeynmanTikz
