/-
Parts of a statement on the line.

Whatever a number is, it is printed without newlines and closing parentheses, and so are a colour of
three whole numbers and every option.  A newline can only come from the text of a label, a closing
parenthesis only from there and from around a position or a length.

* `IsPlain`: a text without newlines and closing parentheses,
* `isPlain_fixed`, `Measure.isPlain_printed`: numbers as they are printed,
* `isPlain_styleOptions`, `isPlain_arrowComment`: the options of a style, and the comment of an arrow,
* `exists_formatCoordinate`: a position ends in the first closing parenthesis.
-/
import FeynmanTikz.Proofs.Tikz.Entries

namespace FeynmanTikz

variable {R : Type} [Arithmetic R]

/-- A text without newlines and closing parentheses. -/
def IsPlain (t : String) : Prop := ∀ c ∈ t.toList, c ≠ '\n' ∧ c ≠ ')'

instance (t : String) : Decidable (IsPlain t) :=
  inferInstanceAs (Decidable (∀ c ∈ t.toList, c ≠ '\n' ∧ c ≠ ')'))

@[simp] theorem isPlain_append {t u : String} : IsPlain (t ++ u) ↔ IsPlain t ∧ IsPlain u := by
  unfold IsPlain
  rw [String.toList_append, List.forall_mem_append]

@[simp] theorem isPlain_inBraces {t : String} : IsPlain (inBraces t) ↔ IsPlain t := by
  unfold inBraces
  simp only [isPlain_append]
  exact ⟨fun h => h.1.2, fun h => ⟨⟨by decide, h⟩, by decide⟩⟩

theorem isPlain_commaSeparated : ∀ {ts : List String}, (∀ t ∈ ts, IsPlain t) →
    IsPlain (Value.commaSeparated ts)
  | [], _ => by decide
  | [t], h => by
    simpa [Value.commaSeparated] using h t List.mem_cons_self
  | t :: u :: ts, h => by
    have ih := isPlain_commaSeparated fun w hw => h w (List.mem_cons_of_mem _ hw)
    unfold Value.commaSeparated at ih ⊢
    rw [String.intercalate_cons_cons, isPlain_append, isPlain_append]
    exact ⟨⟨h t List.mem_cons_self, by decide⟩, ih⟩

theorem isPlain_of_isDigit {c : Char} (h : c.isDigit = true) : c ≠ '\n' ∧ c ≠ ')' :=
  ⟨not_isDigit_of h rfl, not_isDigit_of h rfl⟩

/-! ### Numbers -/

/-- A number is printed with digits and a point, or as a word. -/
theorem isPlain_fixed (places : Nat) (r : Reading) : IsPlain (fixed places r) := by
  have hmagnitude (q : Rat) : ∀ c ∈ fixedMagnitude places q, c ≠ '\n' ∧ c ≠ ')' := by
    intro c hc
    have hdigits : ∀ n, ∀ c ∈ List.replicate n '0' ++ decimalDigits
        (nearestInt (q * (10 : Rat) ^ (places : Int))).toNat, c ≠ '\n' ∧ c ≠ ')' := by
      intro n c hc
      rcases List.mem_append.1 hc with hc | hc
      · rw [List.eq_of_mem_replicate hc]
        decide
      · exact isPlain_of_isDigit (areDigits_decimalDigits _ c hc)
    unfold fixedMagnitude pointBefore at hc
    dsimp only at hc
    split at hc
    · exact hdigits _ c hc
    · rcases List.mem_append.1 hc with hc | hc
      · exact hdigits _ c (List.mem_of_mem_take hc)
      · rcases List.mem_cons.1 hc with rfl | hc
        · decide
        · exact hdigits _ c (List.mem_of_mem_drop hc)
  unfold fixed signedText
  cases r with
  | undefined => exact (by decide : IsPlain "nan")
  | infinite n =>
    cases n with
    | false => exact (by decide : IsPlain "inf")
    | true => exact (by decide : IsPlain "-inf")
  | finite n q =>
    unfold IsPlain
    rw [String.toList_ofList]
    refine List.forall_mem_append.2 ⟨?_, hmagnitude q.abs⟩
    cases n <;> decide

theorem isPlain_formatNumber {v : Value R} {t : String} (h : formatNumber standardCodec v = .ok t) :
    IsPlain t := by
  obtain ⟨_, -, h⟩ := bind_eq_ok.1 h
  obtain ⟨_, -, h⟩ := bind_eq_ok.1 h
  obtain ⟨_, -, h⟩ := bind_eq_ok.1 h
  obtain ⟨_, -, h⟩ := bind_eq_ok.1 h
  cases h
  exact isPlain_fixed _ _

theorem Measure.isPlain_printed {m : Measure} {v : Value R} {t : String} (h : m.printed v = .ok t) :
    IsPlain t := by
  obtain ⟨_, -, h⟩ := bind_eq_ok.1 h
  exact isPlain_formatNumber h

/-- A position is printed in parentheses, and there are no others. -/
theorem exists_formatCoordinate {v : Value R} {t : String}
    (h : formatCoordinate standardCodec v = .ok t) : ∃ u, IsPlain u ∧ t = u ++ ")" := by
  obtain ⟨_, -, h⟩ := bind_eq_ok.1 h
  obtain ⟨⟨_, _⟩, -, h⟩ := bind_eq_ok.1 h
  obtain ⟨X, hX, h⟩ := bind_eq_ok.1 h
  obtain ⟨Y, hY, h⟩ := bind_eq_ok.1 h
  cases h
  refine ⟨"(" ++ X ++ ", " ++ Y, ?_, rfl⟩
  simp only [isPlain_append]
  exact ⟨⟨⟨by decide, isPlain_formatNumber hX⟩, by decide⟩, isPlain_formatNumber hY⟩

theorem isPlain_formatLineWidth {v : Value R} {t : String}
    (h : formatLineWidth standardCodec v = .ok t) : IsPlain t := by
  rw [formatLineWidth_eq] at h
  obtain ⟨_, hprinted, h⟩ := bind_eq_ok.1 h
  cases h
  exact isPlain_append.2 ⟨Measure.isPlain_printed hprinted, by decide⟩

/-! ### Options -/

theorem IsColor.isPlain {v : Value R} (hv : IsColor v) {t : String} (h : tikzColor v = .ok t) :
    IsPlain t := by
  obtain ⟨r, g, b, htriple, -⟩ := hv
  rw [tikzColor_eq htriple] at h
  cases h
  unfold IsPlain
  rw [String.toList_ofList]
  exact forall_mem_rgbText (by decide) (by decide)
    (forall_mem_componentsText r g b (by decide) fun _ => isPlain_of_isDigit)

theorem isPlain_strokeOptions {v : Value R} {ts : List String} (h : strokeOptions v = .ok ts) :
    ∀ t ∈ ts, IsPlain t := by
  unfold strokeOptions at h
  split at h
  case h_5 =>
    obtain ⟨_, -, h⟩ := bind_eq_ok.1 h
    cases h
    exact fun _ hm => absurd hm List.not_mem_nil
  all_goals
    cases h
    simp only [List.mem_cons, List.not_mem_nil, or_false, forall_eq_or_imp, forall_eq, isPlain_append,
      isPlain_inBraces]
    decide

@[simp] theorem isPlain_midMark {t : String} : IsPlain (midMark t) ↔ IsPlain t := by
  unfold midMark
  simp only [isPlain_append, isPlain_inBraces]
  exact ⟨fun h => h.2.2.2, fun h => ⟨by decide, by decide, by decide, h⟩⟩

theorem isPlain_crossMark : IsPlain crossMark := by
  unfold crossMark crossPoint
  simp only [isPlain_append, isPlain_inBraces]
  decide

theorem isPlain_arrowOptions (arrow : Value R) :
    ∀ t ∈ arrowOptions arrow (Codec.standard : Codec R).tipName, IsPlain t := by
  have htip : IsPlain (Codec.standard : Codec R).tipName.plain := show IsPlain "Stealth" by decide
  have hdash : IsPlain "-" := by decide
  have harrow : IsPlain "\\arrow" := by decide
  have hreversed : IsPlain "[reversed]" := by decide
  unfold arrowOptions
  split
  case h_7 => exact fun _ hm => absurd hm List.not_mem_nil
  all_goals
    simp only [List.mem_singleton, forall_eq, isPlain_append, isPlain_inBraces, isPlain_midMark, htip,
      hdash, harrow, hreversed, isPlain_crossMark, and_self]

/-- The options of a style hold nothing special but what its colour holds. -/
theorem isPlain_styleOptions {style : Style R} (hc : IsColor style.color) {t : String}
    (h : styleOptions standardCodec style = .ok t) : IsPlain t := by
  obtain ⟨color, hcolor, h⟩ := bind_eq_ok.1 h
  obtain ⟨width, hwidth, h⟩ := bind_eq_ok.1 h
  obtain ⟨stroke, hstroke, h⟩ := bind_eq_ok.1 h
  obtain ⟨_, hsettings, h⟩ := bind_eq_ok.1 h
  cases hsettings
  cases h
  refine isPlain_commaSeparated (List.forall_mem_append.2 ⟨List.forall_mem_append.2 ⟨?_,
    isPlain_strokeOptions hstroke⟩, isPlain_arrowOptions style.arrow⟩)
  simp only [List.mem_cons, List.not_mem_nil, or_false, forall_eq_or_imp, forall_eq, isPlain_append]
  exact ⟨⟨by decide, hc.isPlain hcolor⟩, by decide, isPlain_formatLineWidth hwidth⟩

theorem isPlain_ellipseOptions {color width : Value R} (hc : IsColor color) {c w : String}
    (hcolor : tikzColor color = .ok c) (hwidth : formatLineWidth standardCodec width = .ok w) :
    IsPlain (Value.commaSeparated ["fill=" ++ (Codec.standard : Codec R).ellipseFill.plain,
      "draw=" ++ c, "line width=" ++ w]) := by
  have hfill : IsPlain (Codec.standard : Codec R).ellipseFill.plain := show IsPlain "gray!20" by decide
  refine isPlain_commaSeparated ?_
  simp only [List.mem_cons, List.not_mem_nil, or_false, forall_eq_or_imp, forall_eq, isPlain_append]
  exact ⟨⟨by decide, hfill⟩, ⟨by decide, hc.isPlain hcolor⟩, by decide, isPlain_formatLineWidth hwidth⟩

theorem isPlain_arrowComment (arrow : Value R) : IsPlain (arrowComment Codec.standard arrow) := by
  unfold arrowComment
  split
  · rename_i h
    obtain ⟨t, ht, rfl⟩ := isOneOf_iff.1 h
    have hkey : IsPlain (Codec.standard : Codec R).arrowKey.plain := show IsPlain "edge-arrow" by decide
    have hname : IsPlain t := (show ∀ t ∈ commentedArrows, IsPlain t by decide) t ht
    simp only [isPlain_append]
    exact ⟨⟨⟨by decide, hkey⟩, by decide⟩, hname⟩
  · decide

end FeynmanTikz
