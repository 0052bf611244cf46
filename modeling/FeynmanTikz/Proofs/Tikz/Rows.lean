/-
Rows: the statements of a document as data, and reading them back.

A row is a statement with its numerals, names and texts in place of the element it is written for.
Writing and reading meet here: what is written is the text of a row, and what is read is its
element.

* `Row`, `Row.text` and `Row.element`: a row, how it looks and what it stands for,
* `Row.Sound`: its numerals can be read back as valid numbers, its names are known, and its label
  can stand on a line,
* `Row.Sound.tells`: the line of a sound row is read as a statement,
* `Row.Sound.oneLine`: it is one line.
-/
import FeynmanTikz.Proofs.Tikz.Entries
import FeynmanTikz.Proofs.Tikz.LabelText
import FeynmanTikz.Proofs.Tikz.Readers

namespace FeynmanTikz

/-- A position by its numerals. -/
structure Spot where
  x : Hundredths
  y : Hundredths

/-- The colour and the width of a drawn path. -/
structure Ink where
  red : Nat
  green : Nat
  blue : Nat
  width : Hundredths

/-- A statement by its numerals, names and texts. -/
inductive Row where
  | point (position : Spot) (radius : Hundredths)
  /-- A curve has a control point. -/
  | edge (start finish : Spot) (control : Option Spot) (ink : Ink) (stroke arrow : String)
  | ellipse (center : Spot) (rx ry : Hundredths) (ink : Ink)
  | label (position : Spot) (content : List Char)

/-! ### What a row looks like -/

namespace Spot

/-- The position as it is written, in front of some text. -/
def before (s : Spot) (t : List Char) : List Char :=
  '(' :: (s.x.text ++ (',' :: ' ' :: (s.y.text ++ (')' :: t))))

def tokens (s : Spot) : List (TokenKind × List Char) := coordinateTokens s.x s.y

/-- The position that is read. -/
def value {R : Type} [Arithmetic R] (s : Spot) : Value R := positionOf s.x s.y

structure Sound (R : Type) [Arithmetic R] (s : Spot) : Prop where
  x : Measure.abscissa.Sound R s.x
  y : Measure.ordinate.Sound R s.y

end Spot

/-- A path as it is written, in front of some text. -/
def pathBefore (start finish : Spot) (t : List Char) : Option Spot → List Char
  | none => start.before (' ' :: '-' :: '-' :: ' ' :: finish.before t)
  | some control => start.before (' ' :: '.' :: '.' :: ' ' :: ("controls".toList ++
      (' ' :: control.before (' ' :: '.' :: '.' :: ' ' :: finish.before t))))

def pathTokens (start finish : Spot) : Option Spot → List (TokenKind × List Char)
  | none => start.tokens ++ ((.dashes, ['-', '-']) :: finish.tokens)
  | some control => start.tokens ++ ((.dots, ['.', '.']) :: wordToken "controls" ::
      (control.tokens ++ ((.dots, ['.', '.']) :: finish.tokens)))

theorem pathTokens_straight (start finish : Spot) (ps : List (TokenKind × List Char)) :
    pathTokens start finish none ++ ps =
      start.tokens ++ ((.dashes, ['-', '-']) :: (finish.tokens ++ ps)) := by
  simp [pathTokens]

theorem pathTokens_curve (start finish control : Spot) (ps : List (TokenKind × List Char)) :
    pathTokens start finish (some control) ++ ps = start.tokens ++ ((.dots, ['.', '.']) ::
      wordToken "controls" :: (control.tokens ++ ((.dots, ['.', '.']) :: (finish.tokens ++ ps)))) := by
  simp [pathTokens]

/-- A comment as it is written after a semicolon. -/
def commentPart : Option (List Char) → List Char
  | none => []
  | some t => ' ' :: '%' :: ' ' :: t

/-- A path as it is drawn, with its options and what is noted after it. -/
def drawText (options : List Char) (start finish : Spot) (control : Option Spot)
    (comment : Option (List Char)) : List Char :=
  '\\' :: ("draw".toList ++ '[' :: (options ++
    ']' :: ' ' :: pathBefore start finish (';' :: commentPart comment) control))

/-- What is read from it. -/
def drawBody {R : Type} [Arithmetic R] (options : List Char) (start finish : Spot)
    (control : Option Spot) : StatementBody R :=
  .edge start.value finish.value (control.map Spot.value) (.text (String.ofList options))

/-- The tokens after the command. -/
def drawTokens (options : List Char) (start finish : Spot) (control : Option Spot)
    (comment : Option (List Char)) : List (TokenKind × List Char) :=
  (.attributes, options) :: (pathTokens start finish control ++
    ((.semicolon, [';']) :: commentTokens comment))

/-- The radius of a point as it is written. -/
def radiusText (r : Hundredths) : List Char := "circle".toList ++ ' ' :: '(' :: (r.text ++ [')', ';'])

/-- The radii of an ellipse as they are written. -/
def radiiText (rx ry : Hundredths) : List Char :=
  "ellipse".toList ++ ' ' :: '(' :: (rx.text ++ ' ' :: ("and".toList ++ ' ' :: (ry.text ++ [')', ';'])))

/-- The text of a label as it is written between braces. -/
def formula (content : List Char) : List Char := '$' :: (content ++ ['$'])

namespace Ink

def entries (i : Ink) : List (List Char) :=
  ["draw=".toList ++ rgbText i.red i.green i.blue,
    "line width=".toList ++ (i.width.text ++ "pt".toList)]

/-- The colour that is read. -/
def color {R : Type} [Arithmetic R] (i : Ink) : Value R := rgb i.red i.green i.blue

/-- The stroke width that is read. -/
def strokeWidth {R : Type} [Arithmetic R] (i : Ink) : Value R :=
  .real (Measure.lineWidth.value i.width)

structure Sound (R : Type) [Arithmetic R] (i : Ink) : Prop where
  red : i.red ≤ 255
  green : i.green ≤ 255
  blue : i.blue ≤ 255
  width : Measure.lineWidth.Sound R i.width

end Ink

namespace Row

/-- The entries of the option list of a row. -/
def entries (R : Type) [Arithmetic R] : Row → List (List Char)
  | edge _ _ _ ink stroke arrow => ink.entries ++ (strokeEntries R stroke ++ arrowEntries R arrow)
  | ellipse _ _ _ ink => fillEntry :: ink.entries
  | _ => []

def comment : Row → Option (List Char)
  | edge _ _ _ _ _ arrow => arrowCommentText arrow
  | _ => none

/-- The statement as it is written. -/
def text (R : Type) [Arithmetic R] : Row → List Char
  | point s r => '\\' :: ("fill".toList ++ ' ' :: s.before (' ' :: radiusText r))
  | row@(edge start finish control ..) => '\\' :: ("draw".toList ++ '[' :: (joined (row.entries R) ++
      ']' :: ' ' :: pathBefore start finish (';' :: commentPart row.comment) control))
  | row@(ellipse center rx ry _) => '\\' :: ("draw".toList ++ '[' :: (joined (row.entries R) ++
      ']' :: ' ' :: center.before (' ' :: radiiText rx ry)))
  | label s content => '\\' :: ("node".toList ++ ' ' :: ("at".toList ++ ' ' ::
      s.before (' ' :: '\x7b' :: (formula content ++ '\x7d' :: [';']))))

/-- What the statement says. -/
def body (R : Type) [Arithmetic R] : Row → StatementBody R
  | point s r => .point s.value (.real (Measure.pointRadius.value r))
  | row@(edge start finish control ..) => .edge start.value finish.value (control.map Spot.value)
      (.text (String.ofList (joined (row.entries R))))
  | row@(ellipse center rx ry _) => .ellipse center.value (.real (Measure.ellipseRadius.value rx))
      (.real (Measure.ellipseRadius.value ry)) (.text (String.ofList (joined (row.entries R))))
  | label s content => .label s.value content

/-- What is read from the row, under some id. -/
def element (R : Type) [Arithmetic R] (id : Value R) : Row → Element R
  | point s r => .point ⟨id, s.value, .real (Measure.pointRadius.value r)⟩
  | edge start finish control ink stroke arrow => .edge
      ⟨id, .text (if control.isSome then "curve" else "straight"), start.value, finish.value,
        (control.map Spot.value).getD .none,
        Style.value ⟨.text stroke, ink.color, ink.strokeWidth, .text arrow⟩⟩
  | ellipse center rx ry ink => .ellipse ⟨id, center.value, .real (Measure.ellipseRadius.value rx),
      .real (Measure.ellipseRadius.value ry), ink.color, ink.strokeWidth⟩
  | label s content => .label ⟨id, s.value, .text (String.ofList content), .none⟩

/-- The collection for the element of a row. -/
def shelf : Row → Shelf
  | point .. => .points
  | edge .. => .edges
  | ellipse .. => .ellipses
  | label .. => .labels

/-- Whether a row can be read back. -/
def Sound (R : Type) [Arithmetic R] : Row → Prop
  | point s r => s.Sound R ∧ Measure.pointRadius.Sound R r
  | edge start finish control ink stroke arrow => start.Sound R ∧ finish.Sound R ∧
      (∀ c ∈ control, c.Sound R) ∧ ink.Sound R ∧ stroke ∈ strokeKinds ∧ arrow ∈ arrowStyles
  | ellipse center rx ry ink => center.Sound R ∧ Measure.ellipseRadius.Sound R rx ∧
      Measure.ellipseRadius.Sound R ry ∧ ink.Sound R
  | label s content => s.Sound R ∧ IsLabelText content ∧ IsStripped content ∧ OneLine content

end Row

variable {R : Type}

/-! ### Cutting rows into tokens -/

/-- A word in front of something that is no letter. -/
theorem Starts.wordToken {w : String} {t : List Char}
    (hw : w.toList ≠ [] ∧ ∀ c ∈ w.toList, isLetter c = true)
    (ht : ∀ c, t.head? = some c → isLetter c = false) :
    Starts R (w.toList ++ t) (wordToken w).1 (wordToken w).2 t :=
  .word hw.1 hw.2 ht

theorem Spot.lexes (s : Spot) {t : List Char} {ps : List (TokenKind × List Char)}
    (h : Lexes R t ps) : Lexes R (s.before t) (s.tokens ++ ps) := by
  refine Lexes.before ?_ (.leftParen _)
  refine Lexes.before (Lexes.before (Lexes.space ?_) (.comma _)) (.numeral s.x (by rintro c ⟨⟩; decide))
  exact (h.before (.rightParen _)).before (.numeral s.y (by rintro c ⟨⟩; decide))

theorem lexes_path (start finish : Spot) (control : Option Spot) {t : List Char}
    {ps : List (TokenKind × List Char)} (h : Lexes R t ps) :
    Lexes R (pathBefore start finish t control) (pathTokens start finish control ++ ps) := by
  cases control with
  | none =>
    rw [pathTokens_straight]
    exact start.lexes (((finish.lexes h).space.before (.dashes _)).space)
  | some c =>
    have hend := ((finish.lexes h).space.before (.dots _)).space
    rw [pathTokens_curve]
    refine start.lexes (Lexes.space (Lexes.before (Lexes.space ?_) (.dots _)))
    exact (c.lexes hend).space.before (.wordToken (by decide) (by rintro c ⟨⟩; decide))

theorem lexes_draw {options : List Char} (ho : passes [.square] options = some [.square])
    (start finish : Spot) (control : Option Spot) {comment : Option (List Char)}
    (hc : Lexes R (commentPart comment) (commentTokens comment)) :
    Lexes R (drawText options start finish control comment)
      ((.command, "draw".toList) :: drawTokens options start finish control comment) := by
  refine Lexes.before ?_ (.command (by decide) (by decide) (by rintro c ⟨⟩; decide))
  refine Lexes.before (Lexes.space (lexes_path start finish control ?_)) (.attributes ho _)
  exact hc.before (.semicolon _)

variable [Arithmetic R]

theorem Ink.Sound.carries {i : Ink} (h : i.Sound R) :
    List.Forall₂ (Carries (R := R)) i.entries [.color i.color, .width i.strokeWidth] :=
  .cons (carries_color h.red h.green h.blue) (.cons (carries_width h.width.1) .nil)

namespace Row

/-- What the entries of a row ask for. -/
def effects (R : Type) [Arithmetic R] : Row → List (Effect R)
  | edge _ _ _ ink stroke arrow =>
    [.color ink.color, .width ink.strokeWidth] ++ (strokeEffects stroke ++ arrowEffects arrow)
  | ellipse _ _ _ ink => [.nothing, .color ink.color, .width ink.strokeWidth]
  | _ => []

theorem Sound.carries {row : Row} (h : row.Sound R) :
    List.Forall₂ Carries (row.entries R) (row.effects R) := by
  cases row with
  | point | label => exact .nil
  | edge start finish control ink stroke arrow =>
    obtain ⟨-, -, -, hi, hk, ha⟩ := h
    exact List.rel_append hi.carries (List.rel_append (carries_stroke hk) (carries_arrow ha))
  | ellipse center rx ry ink =>
    obtain ⟨-, -, -, hi⟩ := h
    exact .cons carries_fill hi.carries

theorem Sound.passes {row : Row} (h : row.Sound R) :
    FeynmanTikz.passes [.square] (joined (row.entries R)) = some [.square] :=
  passes_joined fun w hw => by
    obtain ⟨e, he⟩ := exists_carries h.carries w hw
    exact he.passed

/-- The name of the command a row starts with. -/
def command : Row → String
  | point .. => "fill"
  | edge .. => "draw"
  | ellipse .. => "draw"
  | label .. => "node"

/-- The tokens after the command. -/
def tokens (R : Type) [Arithmetic R] : Row → List (TokenKind × List Char)
  | row@(point s r) => s.tokens ++ (wordToken "circle" :: (.leftParen, ['(']) :: (.number, r.text) ::
      (.rightParen, [')']) :: closingTokens (row.body R) row.comment)
  | row@(edge start finish control ..) => (.attributes, joined (row.entries R)) ::
      (pathTokens start finish control ++ closingTokens (row.body R) row.comment)
  | row@(ellipse center rx ry _) => (.attributes, joined (row.entries R)) :: (center.tokens ++
      (wordToken "ellipse" :: (.leftParen, ['(']) :: (.number, rx.text) :: wordToken "and" ::
        (.number, ry.text) :: (.rightParen, [')']) :: closingTokens (row.body R) row.comment))
  | row@(label s content) => wordToken "at" :: (s.tokens ++ ((.group, formula content) ::
      closingTokens (row.body R) row.comment))

end Row

omit [Arithmetic R] in
theorem lexes_comment {arrow : String} (ha : arrow ∈ arrowStyles) :
    Lexes R (commentPart (arrowCommentText arrow)) (commentTokens (arrowCommentText arrow)) := by
  simp only [arrowStyles, List.mem_cons, List.not_mem_nil, or_false] at ha
  rcases ha with rfl | rfl | rfl | rfl | rfl | rfl | rfl
  all_goals first | exact Lexes.nil | exact (Lexes.nil.before (.comment _)).space

theorem IsLabelText.balanced_formula {content : List Char} (h : IsLabelText content) :
    bracesBalanced (formula content) = true := by
  have hd : ∀ c ∈ ['$'], isPlain c = true := by decide
  show bracesBalancedFrom 0 ('$' :: (content ++ ['$'])) = true
  rw [bracesBalancedFrom_plain (by decide), bracesBalancedFrom_append hd _ _ h.closed]
  exact h.balanced

theorem IsLabelText.passes_formula {content : List Char} (h : IsLabelText content) :
    passes [.brace] (formula content) = some [.brace] := by
  refine passes_of_balanced (k := 0) h.balanced_formula ?_
  show endsInEscape (('$' :: content) ++ ['$']) = false
  rw [endsInEscape_concat]
  rfl

/-- The text of a row is cut into its tokens. -/
theorem Row.Sound.lexes {row : Row} (h : row.Sound R) :
    Lexes R (row.text R) ((.command, row.command.toList) :: row.tokens R) := by
  have hend : Lexes R [')', ';'] [(.rightParen, [')']), (.semicolon, [';'])] :=
    (Lexes.nil.before (.semicolon _)).before (.rightParen _)
  -- Tokens are found from the end of the row: what follows a numeral or a word ends it.
  cases row with
  | point s r =>
    refine Lexes.before ?_ (.command (by decide) (by decide) (by rintro c ⟨⟩; decide))
    refine (s.lexes (Lexes.space ?_)).space
    refine Lexes.before ?_ (.wordToken (by decide) (by rintro c ⟨⟩; decide))
    exact ((hend.before (.numeral r (by rintro c ⟨⟩; decide))).before (.leftParen _)).space
  | edge start finish control ink stroke arrow =>
    obtain ⟨-, -, -, -, -, ha⟩ := id h
    exact lexes_draw h.passes start finish control (lexes_comment ha)
  | ellipse center rx ry ink =>
    refine Lexes.before ?_ (.command (by decide) (by decide) (by rintro c ⟨⟩; decide))
    refine Lexes.before (Lexes.space (center.lexes (Lexes.space ?_))) (.attributes h.passes _)
    refine Lexes.before (Lexes.space ?_) (.wordToken (by decide) (by rintro c ⟨⟩; decide))
    refine Lexes.before (Lexes.before (Lexes.space ?_) (.numeral rx (by rintro c ⟨⟩; decide)))
      (.leftParen _)
    refine Lexes.before (Lexes.space ?_) (.wordToken (by decide) (by rintro c ⟨⟩; decide))
    exact hend.before (.numeral ry (by rintro c ⟨⟩; decide))
  | label s content =>
    obtain ⟨-, ht, -, -⟩ := h
    refine Lexes.before (Lexes.space ?_) (.command (by decide) (by decide) (by rintro c ⟨⟩; decide))
    refine Lexes.before (Lexes.space (s.lexes (Lexes.space ?_)))
      (.wordToken (by decide) (by rintro c ⟨⟩; decide))
    exact (Lexes.nil.before (.semicolon _)).before (.group ht.passes_formula _)

/-! ### Reading rows -/

/-- A line is read as a statement, whatever its number. -/
def Tells (t : List Char) (body : StatementBody R) (comment : Option (List Char)) : Prop :=
  ∀ n : Nat, ∃ place,
    readLine standardCodec n t = .ok (.statement ⟨place, body, commentValue comment⟩)

theorem tells_of_lexes {t name : List Char} {body : StatementBody R} {comment : Option (List Char)}
    {ps : List (TokenKind × List Char)} (hl : Lexes R t ((.command, name) :: ps))
    (hb : ∀ command : Token R, command.text = .text (String.ofList name) →
      Reads ps (readBody standardCodec command) (fun b => b = body) (closingTokens body comment)) :
    Tells t body comment := by
  intro n
  obtain ⟨ts, hts, hseen⟩ := hl (.int n) 1
  obtain ⟨place, hp⟩ := readStatement_of_reads hb hseen
  refine ⟨place, ?_⟩
  unfold readLine tokenize
  rw [hts, ok_bind, hp, ok_bind]
  rfl

/-- What follows the command of a drawn path is read as its body. -/
theorem reads_path (options : List Char) {start finish : Spot} {control : Option Spot}
    (hs : start.Sound R) (hf : finish.Sound R) (hc : ∀ c ∈ control, c.Sound R)
    (comment : Option (List Char)) (place : Place R) :
    Reads (drawTokens options start finish control comment) (readDraw standardCodec place)
      (fun b => b = drawBody options start finish control)
      ((.semicolon, [';']) :: commentTokens comment) := by
  unfold drawTokens
  cases control with
  | none =>
    rw [pathTokens_straight]
    exact reads_straight place hs.x hs.y hf.x hf.y
  | some c =>
    have hcs := hc c rfl
    rw [pathTokens_curve]
    exact reads_curve place hs.x hs.y hcs.x hcs.y hf.x hf.y

theorem tells_draw {options : List Char} (ho : passes [.square] options = some [.square])
    {start finish : Spot} {control : Option Spot} (hs : start.Sound R) (hf : finish.Sound R)
    (hcontrol : ∀ c ∈ control, c.Sound R) {comment : Option (List Char)}
    (hc : Lexes R (commentPart comment) (commentTokens comment)) :
    Tells (R := R) (drawText options start finish control comment)
      (drawBody options start finish control) comment :=
  tells_of_lexes (lexes_draw ho start finish control hc) fun command hd => by
    unfold readBody
    rw [hd, String.ofList_toList]
    exact reads_path options hs hf hcontrol comment command.place

/-- What follows the command of a row is read as its body. -/
theorem Row.Sound.reads {row : Row} (h : row.Sound R) {command : Token R}
    (hc : command.text = .text (String.ofList row.command.toList)) :
    Reads (row.tokens R) (readBody standardCodec command) (fun b => b = row.body R)
      (closingTokens (row.body R) row.comment) := by
  unfold readBody
  rw [hc, String.ofList_toList]
  cases row with
  | point s r =>
    obtain ⟨hs, hr⟩ := h
    exact reads_point hs.x hs.y hr
  | edge start finish control ink stroke arrow =>
    obtain ⟨hs, hf, hcontrol, -⟩ := h
    exact reads_path _ hs hf hcontrol _ command.place
  | ellipse center rx ry ink =>
    obtain ⟨hs, hx, hy, -⟩ := h
    exact reads_ellipse command.place hs.x hs.y hx hy
  | label s content =>
    obtain ⟨hs, ht, hstripped, -⟩ := h
    have hread := reads_label (formula content) (closingTokens (body R (label s content)) none) hs.x hs.y
    rw [formula, stripMath_wrapped hstripped ht.closed] at hread
    exact hread

/-- An indented row is read as its statement. -/
theorem Row.Sound.tells {row : Row} (h : row.Sound R) :
    Tells (' ' :: ' ' :: row.text R) (row.body R) row.comment :=
  tells_of_lexes h.lexes.space.space fun _ hc => h.reads hc

/-! ### A row is one line -/

theorem Hundredths.oneLine_text (h : Hundredths) : OneLine h.text := by
  rw [text_eq]
  refine OneLine.append ?_ ((areDigits_whole _).oneLine.append
    (OneLine.cons rfl (areDigits_fraction _).oneLine))
  unfold sign
  split <;> decide

theorem Spot.oneLine (s : Spot) {t : List Char} (ht : OneLine t) : OneLine (s.before t) :=
  .cons rfl (s.x.oneLine_text.append (.cons rfl (.cons rfl
    (s.y.oneLine_text.append (.cons rfl ht)))))

theorem oneLine_path (start finish : Spot) (control : Option Spot) {t : List Char}
    (ht : OneLine t) : OneLine (pathBefore start finish t control) := by
  cases control with
  | none =>
    exact start.oneLine (.cons rfl (.cons rfl (.cons rfl (.cons rfl (finish.oneLine ht)))))
  | some c =>
    have hend : OneLine (' ' :: '.' :: '.' :: ' ' :: finish.before t) :=
      .cons rfl (.cons rfl (.cons rfl (.cons rfl (finish.oneLine ht))))
    refine start.oneLine (.cons rfl (.cons rfl (.cons rfl (.cons rfl ?_))))
    exact OneLine.append (by decide) (.cons rfl (c.oneLine hend))

theorem oneLine_commentPart {arrow : String} (ha : arrow ∈ arrowStyles) :
    OneLine (commentPart (arrowCommentText arrow)) := by
  simp only [arrowStyles, List.mem_cons, List.not_mem_nil, or_false] at ha
  rcases ha with rfl | rfl | rfl | rfl | rfl | rfl | rfl <;> decide

theorem oneLine_draw {options : List Char} (ho : OneLine options) (start finish : Spot)
    (control : Option Spot) {comment : Option (List Char)} (hc : OneLine (commentPart comment)) :
    OneLine (drawText options start finish control comment) := by
  refine .cons rfl (OneLine.append (by decide) (.cons rfl (ho.append ?_)))
  exact .cons rfl (.cons rfl (oneLine_path _ _ _ (.cons rfl hc)))

theorem Row.Sound.oneLine_entries {row : Row} (h : row.Sound R) :
    OneLine (joined (row.entries R)) :=
  oneLine_joined fun w hw => by
    obtain ⟨e, he⟩ := exists_carries h.carries w hw
    exact he.oneLine

theorem Row.Sound.oneLine {row : Row} (h : row.Sound R) : OneLine (row.text R) := by
  have hend : OneLine [')', ';'] := by decide
  cases row with
  | point s r =>
    refine .cons rfl (OneLine.append (by decide) (.cons rfl (s.oneLine (.cons rfl ?_))))
    exact OneLine.append (by decide) (.cons rfl (.cons rfl (r.oneLine_text.append hend)))
  | edge start finish control ink stroke arrow =>
    obtain ⟨-, -, -, -, -, ha⟩ := id h
    exact oneLine_draw h.oneLine_entries start finish control (oneLine_commentPart ha)
  | ellipse center rx ry ink =>
    refine .cons rfl (OneLine.append (by decide) (.cons rfl (h.oneLine_entries.append ?_)))
    refine .cons rfl (.cons rfl (center.oneLine (.cons rfl (OneLine.append (by decide) ?_))))
    refine .cons rfl (.cons rfl (rx.oneLine_text.append (.cons rfl (OneLine.append (by decide) ?_))))
    exact .cons rfl (ry.oneLine_text.append hend)
  | label s content =>
    obtain ⟨-, -, -, ho⟩ := h
    have hgroup : OneLine (formula content ++ '\x7d' :: [';']) :=
      OneLine.append (.cons rfl (ho.append (by decide))) (by decide)
    refine .cons rfl (OneLine.append (by decide) (.cons rfl (OneLine.append (by decide) ?_)))
    exact .cons rfl (s.oneLine (.cons rfl (.cons rfl hgroup)))

end FeynmanTikz
