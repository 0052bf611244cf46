/-
Numbers on their way through the text.

A number of an element is a coordinate, a radius or the width of a stroke.  Each of these measures
is turned into text units, printed with two decimals, and read back in its own way.

* `Measure.Admits`: the numbers that are valid as a measure,
* `Measure.printed` and `Measure.recovered`: the numeral that is printed for a number, and the number
  that is read back from a numeral,
* `ReadsBack` and `PrintsAgain`: what is asked of the arithmetic.

Main facts: `Measure.recovered_eq_ok`, which numerals are read back and as what;
`formatCoordinate_eq`, `formatLength_eq` and `formatLineWidth_eq`, the writer prints measures.

Design notes.
* Nothing is known about the arithmetic beyond what these two properties say.  Both hold where every
  operation is rounded correctly to enough bits, and where it is exact.
-/
import FeynmanTikz.Proofs.Diagram.Validity
import FeynmanTikz.Proofs.Number.Hundredths
import FeynmanTikz.Tikz.Document
import FeynmanTikz.Tikz.Writer

namespace FeynmanTikz

variable {R : Type} [Arithmetic R]

/-- The standard settings of the text format, as they are handed in. -/
abbrev standardCodec : Given R (Codec R) := Codec.standard.given

/-- What a number of an element measures. -/
inductive Measure where
  | abscissa
  | ordinate
  | pointRadius
  | ellipseRadius
  | lineWidth
deriving DecidableEq

/-- The number a numeral stands for, which must be finite. -/
def readNumeral (t : String) : Except (Fault R) (Value R) :=
  (numberOf (⟨.number, .text t, ⟨.none, .none⟩⟩ : Token R)).run' []

namespace Measure

/-- The numbers that are valid as a measure. -/
def Admits (m : Measure) (x : Scalar R) : Prop :=
  match m with
  | abscissa | ordinate => IsCoordinate x
  | pointRadius | lineWidth => IsPositive x
  | ellipseRadius => IsRadius x

/-- The measure in the units of the text. -/
def inText (m : Measure) (v : Value R) : Except (Fault R) (Value R) :=
  match m with
  | abscissa => (↑v / ↑(Codec.standard (R := R)).scale : Computed R).result
  | ordinate => (-↑v / ↑(Codec.standard (R := R)).scale : Computed R).result
  | pointRadius => do
    Value.max Codec.standard.minPointRadius
      (← (↑v / ↑(Codec.standard (R := R)).scale : Computed R).result)
  | ellipseRadius => do
    let magnitude ← v.magnitude
    (↑magnitude / ↑(Codec.standard (R := R)).scale : Computed R).result
  | lineWidth => do Value.max Codec.standard.minLineWidth (← (↑v / 2 : Computed R).result)

/-- The numeral that is printed for a measure. -/
def printed (m : Measure) (v : Value R) : Except (Fault R) String := do
  formatNumber standardCodec (← m.inText v)

/-- The measure that is read back from a numeral. -/
def recovered (m : Measure) (t : String) : Except (Fault R) (Value R) :=
  match m with
  | abscissa | pointRadius | ellipseRadius => do
    let x ← readNumeral t
    (↑x * ↑(Codec.standard (R := R)).scale : Computed R).result
  | ordinate => do
    let x ← readNumeral t
    (-↑x * ↑(Codec.standard (R := R)).scale : Computed R).result
  | lineWidth => readWidth (t.toList ++ "pt".toList)

/-- `y` is read back from the numeral that is printed for `x`. -/
def Recovers (m : Measure) (x y : Scalar R) : Prop :=
  ∃ h : Hundredths, m.printed (.number x) = .ok h.string ∧ m.recovered h.string = .ok (.number y)

end Measure

/-- For every valid number a numeral is printed, from which a valid number is read back. -/
def ReadsBack (R : Type) [Arithmetic R] : Prop :=
  ∀ (m : Measure) (x : Scalar R), m.Admits x → ∃ y, m.Recovers x y ∧ m.Admits y

/-- What is read back from the numeral of a valid number is printed as the same numeral. -/
def PrintsAgain (R : Type) [Arithmetic R] : Prop :=
  ∀ (m : Measure) (x y : Scalar R), m.Admits x → m.Recovers x y →
    m.printed (.number y) = m.printed (.number x)

/-! ### Reading a numeral back -/

namespace Hundredths

/-- The number the numeral stands for. -/
def number (h : Hundredths) : R := h.numeral.toReal

theorem readNumber_string (h : Hundredths) : readNumber (R := R) (.text h.string) = .ok h.number := by
  unfold readNumber
  dsimp only
  rw [string, String.toList_ofList, h.ofText?_text]
  rfl

theorem numberOf_run {t : Token R} {h : Hundredths} (ht : t.text = .text h.string)
    (rest : List (Token R)) : (numberOf t).run rest =
      if Arithmetic.isFinite (h.number : R) = true then .ok (.real h.number, rest)
      else .error (.unreadable { place := some t.place, problem := .numberNotFinite t.text }) := by
  unfold numberOf
  rw [ht, readNumber_string]
  show (if Arithmetic.isFinite (h.number : R) = true then (pure (Value.real h.number) : TokenReader R _) else
    TokenReader.failAt t.place (.numberNotFinite (.text h.string))).run rest = _
  split <;> rfl

theorem readNumeral_string (h : Hundredths) (v : Value R) :
    readNumeral h.string = .ok v ↔ Arithmetic.isFinite (h.number : R) = true ∧ v = .real h.number := by
  unfold readNumeral
  rw [StateT.run'_eq, numberOf_run rfl]
  by_cases hf : Arithmetic.isFinite (h.number : R) = true
  · rw [if_pos hf]
    constructor
    · rintro ⟨⟩
      exact ⟨hf, rfl⟩
    · rintro ⟨-, rfl⟩
      rfl
  · rw [if_neg hf]
    constructor
    · rintro ⟨⟩
    · rintro ⟨hf', -⟩
      exact absurd hf' hf

/-- Twice the number of points a numeral stands for. -/
def doubled (h : Hundredths) : R := Arithmetic.ofDecimal h.count (-2) * Arithmetic.ofInt 2

theorem readWidth_text (h : Hundredths) (v : Value R) :
    readWidth (h.text ++ "pt".toList) = .ok v ↔ h.negative = false ∧
      Arithmetic.isFinite (h.doubled : R) = true ∧ v = .real h.doubled := by
  -- There are no blanks to be dropped.
  have hfilter : (h.text ++ "pt".toList).filter (· != ' ') = h.text ++ "pt".toList := by
    refine List.filter_eq_self.2 fun c hc => ?_
    rcases List.mem_append.1 hc with hc | hc
    · rcases isDigit_or_of_mem_text hc with rfl | rfl | hd
      · decide
      · decide
      · refine bne_iff_ne.2 ?_
        rintro rfl
        exact absurd hd (by decide)
    · exact (show ∀ c ∈ "pt".toList, (c != ' ') = true by decide) c hc
  unfold readWidth
  rw [hfilter]
  obtain ⟨negative, n⟩ := h
  cases negative with
  | true =>
    have hm : mantissa? (text ⟨true, n⟩ ++ "pt".toList) = none := rfl
    rw [hm]
    simp
  | false =>
    have hm : mantissa? (text ⟨false, n⟩ ++ "pt".toList) =
        some ⟨whole n, true, fraction n, "pt".toList⟩ :=
      mantissa?_text n fun c hc => by cases hc; decide
    rw [hm]
    dsimp only
    rw [if_pos rfl, whole_append_fraction, digitsValue_digits, length_fraction]
    show (if Arithmetic.isFinite (doubled ⟨false, n⟩ : R) = true then
      Except.ok (Value.real (doubled ⟨false, n⟩)) else .error _) = _ ↔ _
    by_cases hf : Arithmetic.isFinite (doubled ⟨false, n⟩ : R) = true
    · simp [hf, eq_comm]
    · simp [hf]

end Hundredths

namespace Measure

/-- Editor units in one unit of the text. -/
def scale : R := Arithmetic.ofDecimal 20 0

/-- The number that is read back from a numeral. -/
def value (m : Measure) (h : Hundredths) : R :=
  match m with
  | abscissa | pointRadius | ellipseRadius => h.number * scale
  | ordinate => -h.number * scale
  | lineWidth => h.doubled

/-- Whether a number is read back from a numeral at all. -/
def Accepts (R : Type) [Arithmetic R] (m : Measure) (h : Hundredths) : Prop :=
  match m with
  | lineWidth => h.negative = false ∧ Arithmetic.isFinite (h.doubled : R) = true
  | _ => Arithmetic.isFinite (h.number : R) = true

theorem recovered_eq_ok {m : Measure} {h : Hundredths} {v : Value R} :
    m.recovered h.string = .ok v ↔ m.Accepts R h ∧ v = .real (m.value h) := by
  have hmul (f : Value R → Except (Fault R) (Value R)) (x : R)
      (hf : f (.real h.number) = .ok (.real x)) :
      (readNumeral h.string >>= f) = .ok v ↔
        Arithmetic.isFinite (h.number : R) = true ∧ v = .real x := by
    rw [bind_eq_ok]
    constructor
    · rintro ⟨a, ha, hv⟩
      obtain ⟨hfin, rfl⟩ := (h.readNumeral_string a).1 ha
      rw [hf] at hv
      exact ⟨hfin, (Except.ok.inj hv).symm⟩
    · rintro ⟨hfin, rfl⟩
      exact ⟨_, (h.readNumeral_string _).2 ⟨hfin, rfl⟩, hf⟩
  cases m with
  | lineWidth =>
    show readWidth (h.string.toList ++ _) = _ ↔ _
    rw [Hundredths.string, String.toList_ofList, h.readWidth_text, ← and_assoc]
    rfl
  | ordinate => exact hmul _ _ rfl
  | abscissa | pointRadius | ellipseRadius => exact hmul _ _ rfl

/-- Every number that is read back is the one its numeral says. -/
theorem Recovers.eq_real {m : Measure} {x y : Scalar R} (h : m.Recovers x y) :
    ∃ k : Hundredths, m.printed (.number x) = .ok k.string ∧ m.Accepts R k ∧
      y = .real (m.value k) := by
  obtain ⟨k, hk, hy⟩ := h
  obtain ⟨ha, hv⟩ := recovered_eq_ok.1 hy
  exact ⟨k, hk, ha, Value.number.inj hv⟩

end Measure

/-! ### The writer prints measures -/

/-- A position is printed as its two coordinates. -/
theorem formatCoordinate_eq {p : Value R} {x y : Scalar R} {X Y : String} (hp : IsPair p x y)
    (hX : Measure.abscissa.printed (.number x) = .ok X)
    (hY : Measure.ordinate.printed (.number y) = .ok Y) :
    formatCoordinate standardCodec p = .ok ("(" ++ X ++ ", " ++ Y ++ ")") := by
  obtain ⟨u, hu, hX⟩ := bind_eq_ok.1 hX
  obtain ⟨v, hv, hY⟩ := bind_eq_ok.1 hY
  have htext : toTextUnits standardCodec p = .ok (.tuple [u, v]) := by
    unfold toTextUnits
    rw [Codec.settings_given, ok_bind, x_of_isPair hp, y_of_isPair hp]
    unfold Vec.ofFormulas
    exact bind_eq_ok.2 ⟨u, hu, bind_eq_ok.2 ⟨v, hv, rfl⟩⟩
  unfold formatCoordinate
  rw [htext]
  show (formatNumber standardCodec u >>= fun X => formatNumber standardCodec v >>= fun Y =>
    .ok ("(" ++ X ++ ", " ++ Y ++ ")")) = _
  exact bind_eq_ok.2 ⟨X, hX, bind_eq_ok.2 ⟨Y, hY, rfl⟩⟩

theorem formatLength_eq (v : Value R) :
    formatLength standardCodec v = Measure.ellipseRadius.printed v := by
  unfold formatLength Measure.printed Measure.inText
  cases v.magnitude <;> rfl

theorem formatLineWidth_eq (v : Value R) :
    formatLineWidth standardCodec v = Measure.lineWidth.printed v >>= fun t => .ok (t ++ "pt") := by
  unfold formatLineWidth Measure.printed Measure.inText
  simp only [bind_assoc]
  rfl

end FeynmanTikz
