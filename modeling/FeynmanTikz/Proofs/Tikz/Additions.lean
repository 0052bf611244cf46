/-
What a row adds to a diagram.

* `Row.statement`: the statement that is read from a row,
* `edgeStyle_eq`: the style of an edge is read from its option list and its comment,
* `Row.Sound.describes`, `Row.Sound.check_element`: the statement of a sound row describes the element
  of the row, which passes its check.
-/
import FeynmanTikz.Proofs.Tikz.Description
import FeynmanTikz.Proofs.Tikz.Rows

namespace FeynmanTikz

variable {R : Type} [Arithmetic R]

namespace Row

/-- The statement that is read from a row. -/
def statement (row : Row) (place : Place R) : Statement R :=
  ⟨place, row.body R, commentValue row.comment⟩

theorem isReal_statement (row : Row) (place : Place R) : (row.statement place).IsReal := by
  have htext (comment : Option (List Char)) : IsText (commentValue comment : Value R) := by
    cases comment <;> exact ⟨_, rfl⟩
  refine ⟨?_, htext row.comment⟩
  cases row with
  | point s r => exact ⟨⟨_, _, rfl⟩, _, rfl⟩
  | edge start finish control ink stroke arrow =>
    refine ⟨⟨_, _, rfl⟩, ⟨_, _, rfl⟩, fun p hp => ?_, _, rfl⟩
    obtain ⟨c, -, rfl⟩ := Option.map_eq_some_iff.1 hp
    exact ⟨_, _, rfl⟩
  | ellipse center rx ry ink => exact ⟨⟨_, _, rfl⟩, ⟨_, rfl⟩, ⟨_, rfl⟩, _, rfl⟩
  | label s content => exact ⟨_, _, rfl⟩

theorem isWrapper_body (row : Row) : (row.body R).isWrapper = false := by
  cases row <;> rfl

theorem kind_body (row : Row) : (row.body R).kind = row.shelf.kind := by
  cases row <;> rfl

end Row

theorem Spot.Sound.isPosition {s : Spot} (h : s.Sound R) : IsPosition (s.value : Value R) :=
  ⟨_, _, .inl rfl, h.x.2, h.y.2⟩

theorem Ink.Sound.isColor {i : Ink} (h : i.Sound R) : IsColor (i.color : Value R) :=
  ⟨i.red, i.green, i.blue, .inl rfl, h.red, h.green, h.blue⟩

/-- The arrow style is told by the comment, or else by the tips. -/
theorem exists_arrowOfComment (R : Type) [Arithmetic R] (arrow : String) : ∃ a,
    (arrowOfComment standardCodec (commentValue (arrowCommentText arrow) : Value R)).result = .ok a ∧
      a.getD (tipsOf arrow) = arrow := by
  by_cases hc : commentedArrows.contains arrow = true
  · refine ⟨some arrow, ?_, rfl⟩
    rw [arrowCommentText, if_pos hc]
    exact arrowOfComment_some (List.contains_iff_mem.1 hc)
  · refine ⟨none, ?_, ?_⟩
    · rw [arrowCommentText, if_neg hc]
      rfl
    · rw [tipsOf, if_neg hc]
      rfl

/-- The style of an edge is read from its option list and its comment. -/
theorem edgeStyle_eq {start finish : Spot} {control : Option Spot} {ink : Ink}
    {stroke arrow : String} (h : (Row.edge start finish control ink stroke arrow).Sound R) :
    (edgeStyle standardCodec
        (.text (String.ofList (joined ((Row.edge start finish control ink stroke arrow).entries R))))
        (commentValue (arrowCommentText arrow)) : Logged R (Value R)).result =
      .ok (Style.value ⟨.text stroke, ink.color, ink.strokeWidth, .text arrow⟩) := by
  obtain ⟨-, -, -, -, hk, ha⟩ := id h
  obtain ⟨a, hcomment, harrow⟩ := exists_arrowOfComment R arrow
  unfold edgeStyle
  simp only [Logged.result_bind]
  rw [read_joined h.carries, ok_bind, hcomment, ok_bind]
  unfold Row.effects
  rw [ofEffects_edge hk ha, harrow]
  rfl

/-! ### The element of a row -/

namespace Row

theorem id_element (row : Row) (id : Value R) : (row.element R id).id = id := by
  cases row <;> rfl

namespace Sound

variable {row : Row}

/-- The statement of a row describes its element. -/
theorem describes (h : row.Sound R) (place : Place R) (id : Value R) :
    Describes standardCodec (row.statement place) (row.element R id) := by
  cases row with
  | point | label => rfl
  | edge start finish control ink stroke arrow =>
    refine ⟨_, edgeStyle_eq h, ?_⟩
    cases control <;> rfl
  | ellipse center rx ry ink => exact ⟨_, read_joined h.carries, rfl⟩

theorem check_element (h : row.Sound R) (id : Value R) : (row.element R id).check = .ok () := by
  cases row with
  | point s r =>
    obtain ⟨hs, hr⟩ := h
    exact Point.check_eq_ok.2 ⟨hs.isPosition, _, rfl, hr.2⟩
  | edge start finish control ink stroke arrow =>
    obtain ⟨hs, hf, hcontrol, hi, hk, ha⟩ := h
    have hstyle : (⟨.text stroke, ink.color, ink.strokeWidth, .text arrow⟩ : Style R).IsValid :=
      ⟨⟨stroke, hk, rfl⟩, ⟨arrow, ha, rfl⟩, hi.isColor, _, rfl, hi.width.2⟩
    refine Edge.check_eq_ok.2 ⟨hs.isPosition, hf.isPosition, ?_, _, rfl, hstyle⟩
    cases control with
    | none => exact .inl ⟨rfl, rfl⟩
    | some c => exact .inr ⟨rfl, (hcontrol c rfl).isPosition⟩
  | ellipse center rx ry ink =>
    obtain ⟨hc, hx, hy, hi⟩ := h
    exact Ellipse.check_eq_ok.2
      ⟨hc.isPosition, ⟨_, rfl, hx.2⟩, ⟨_, rfl, hy.2⟩, hi.isColor, _, rfl, hi.width.2⟩
  | label s content =>
    obtain ⟨hs, ht, -, -⟩ := h
    refine Label.check_eq_ok.2 ⟨hs.isPosition, ⟨_, rfl, ?_⟩, none, rfl, by simp⟩
    rw [String.toList_ofList]
    exact ht

/-- So the statement is not flawed. -/
theorem not_isFlawed (h : row.Sound R) (place : Place R) :
    ¬IsFlawed standardCodec (row.statement place) := fun hflawed =>
  hflawed.check _ (h.describes place .none) (h.check_element .none)

end Sound

end Row

end FeynmanTikz
