/-
Statements: one token list, one statement or nothing.

* `Statement R`: where it starts, what it says and the comment after it,
* `readStatement`: the statement on a line of tokens; nothing on a blank line and on a line
  that is only a comment.

The readers below take tokens off the front of a list.  A failure points at the first token
that does not fit; a line that ends too early has no such token.

Design notes.
* The texts of option lists and comments are kept as they are; what they say is asked elsewhere.
-/
import FeynmanTikz.Tikz.LabelText
import FeynmanTikz.Tikz.Lexer
import FeynmanTikz.Tikz.Units

namespace FeynmanTikz

/-- What a statement says.  Positions and lengths are in editor space. -/
inductive StatementBody (R : Type) where
  | point (position radius : Value R)
  /-- A straight edge, or a curve if there is a control point. -/
  | edge (start finish : Value R) (control : Option (Value R)) (options : Value R)
  | ellipse (center rx ry : Value R) (options : Value R)
  | label (position : Value R) (text : List Char)
  | beginPicture
  | endPicture

structure Statement (R : Type) where
  place : Place R
  body : StatementBody R
  comment : Value R

namespace StatementBody

variable {R : Type}

/-- The name of the kind of statement. -/
def kind : StatementBody R → String
  | point .. => "point"
  | edge .. => "edge"
  | ellipse .. => "ellipse"
  | label .. => "label"
  | beginPicture => "begin"
  | endPicture => "end"

def isEdge : StatementBody R → Bool
  | edge .. => true
  | _ => false

/-- Statements that stand around a picture take no semicolon. -/
def isWrapper : StatementBody R → Bool
  | beginPicture | endPicture => true
  | _ => false

def textValue (t : List Char) : Value R := .text (String.ofList t)

/-- The parts of a statement, as a record. -/
def value : StatementBody R → Value R
  | point p r => .record "data" [("position", p), ("radius", r)]
  | edge s f none o =>
    .record "data"
      [("kind", .text "straight"), ("start", s), ("end", f), ("attrs", o)]
  | edge s f (some c) o =>
    .record "data"
      [("kind", .text "curve"), ("start", s), ("end", f), ("control", c), ("attrs", o)]
  | ellipse c rx ry o =>
    .record "data" [("center", c), ("rx", rx), ("ry", ry), ("attrs", o)]
  | label p t => .record "data" [("position", p), ("text", textValue t)]
  | beginPicture | endPicture => .record "data" []

end StatementBody

variable {R : Type}

def Statement.value (s : Statement R) : Value R :=
  .record "Stmt"
    [("kind", .text s.body.kind), ("line", s.place.line), ("col", s.place.column),
     ("data", s.body.value), ("comment", s.comment)]

/-- A reader takes tokens off the front of a list, or fails. -/
abbrev TokenReader (R : Type) := StateT (List (Token R)) (Except (Fault R))

namespace TokenReader

def failAt {α : Type} (p : Place R) (problem : ReadProblem R) : TokenReader R α :=
  throw (.unreadable { place := some p, problem })

/-- The next token, which must be of the given kind. -/
def expect (kind : TokenKind) : TokenReader R (Token R) := do
  match ← get with
  | [] => throw (.unreadable { place := none, problem := .unexpectedEnd kind })
  | t :: rest =>
    if t.kind = kind then
      set rest
      return t
    else failAt t.place (.unexpectedToken kind t)

/-- The next token, if it is of the given kind. -/
def accept? (kind : TokenKind) : TokenReader R (Option (Token R)) := do
  match ← get with
  | [] => return none
  | t :: rest =>
    if t.kind = kind then
      set rest
      return some t
    else return none

/-- A given word. -/
def expectWord (word : String) : TokenReader R Unit := do
  let t ← expect .word
  if t.text.isWord word then return ()
  else failAt t.place (.wrongWord word t.text)

end TokenReader

open TokenReader

variable [Arithmetic R]

/-- The number a value stands for: a numeral in a text, or a number. -/
def readNumber (v : Value R) : Except (Fault R) R :=
  match v with
  | .text t =>
    match Numeral.ofText? t.toList with
    | some n => .ok n.toReal
    | none => .error (.refused .notNumeral)
  | v => v.expectReal

/-- The number a token stands for. -/
def numberOf (t : Token R) : TokenReader R (Value R) := do
  let x ← readNumber t.text
  if Arithmetic.isFinite x then return .real x
  else failAt t.place (.numberNotFinite t.text)

/-- Whether a value is a finite number. -/
def isFiniteValue (v : Value R) : Except (Fault R) Bool := do
  isFiniteNumber (← v.expectNumber)

/-- `(x, y)` in text units, in editor space. -/
def readCoordinate (codec : Given R (Codec R)) : TokenReader R (Value R) := do
  let opening ← expect .leftParen
  let x ← numberOf (← expect .number)
  let _ ← expect .comma
  let y ← numberOf (← expect .number)
  let _ ← expect .rightParen
  let p ← toEditorSpace codec (.tuple [x, y])
  let (x, y) ← p.expectPair
  if ← isFiniteValue x then
    if ← isFiniteValue y then
      return p
  failAt opening.place .coordinateOutOfRange

/-- A length in text units, in editor units. -/
def readLength (codec : Given R (Codec R)) : TokenReader R (Value R) := do
  let t ← expect .number
  let x ← numberOf t
  let codec ← codec.settings
  let length ← (↑x * ↑codec.scale : Computed R).result
  if ← isFiniteValue length then return length
  else failAt t.place .lengthOutOfRange

/-- After `\fill`: a point. -/
def readPoint (codec : Given R (Codec R)) : TokenReader R (StatementBody R) := do
  let position ← readCoordinate codec
  expectWord "circle"
  let _ ← expect .leftParen
  let radius ← readLength codec
  let _ ← expect .rightParen
  return .point position radius

/-- After `ellipse`: its radii. -/
def readEllipse (codec : Given R (Codec R)) (center options : Value R) :
    TokenReader R (StatementBody R) := do
  let _ ← expect .leftParen
  let rx ← readLength codec
  expectWord "and"
  let ry ← readLength codec
  let _ ← expect .rightParen
  return .ellipse center rx ry options

/-- After `\draw`: an edge, a curve or an ellipse.  `command` is where the statement
starts. -/
def readDraw (codec : Given R (Codec R)) (command : Place R) : TokenReader R (StatementBody R) := do
  let options := match ← accept? .attributes with
    | some t => t.text
    | none => .text ""
  let start ← readCoordinate codec
  if (← accept? .dashes).isSome then
    let finish ← readCoordinate codec
    return .edge start finish none options
  else if (← accept? .dots).isSome then
    expectWord "controls"
    let control ← readCoordinate codec
    let _ ← expect .dots
    let finish ← readCoordinate codec
    return .edge start finish (some control) options
  else
    match ← get with
    | [] => failAt command .unterminatedDraw
    | t :: rest =>
      if t.kind = .word ∧ t.text.isWord "ellipse" then
        set rest
        readEllipse codec start options
      else failAt t.place .noPath

/-- After `\node`: a label. -/
def readLabel (codec : Given R (Codec R)) : TokenReader R (StatementBody R) := do
  expectWord "at"
  let position ← readCoordinate codec
  let group ← expect .group
  return .label position (stripMath (textOf group.text))

/-- After `\begin` or `\end`: the environment of the picture. -/
def readEnvironment (body : StatementBody R) : TokenReader R (StatementBody R) := do
  let group ← expect .group
  let name ← group.text.characters
  if trim name ≠ pictureEnvironment.toList then failAt group.place .wrongEnvironment
  else
    match body with
    | .beginPicture =>
      let _ ← accept? .attributes
      return body
    | _ => return body

/-- What follows a command. -/
def readBody (codec : Given R (Codec R)) (command : Token R) : TokenReader R (StatementBody R) :=
  match command.text with
  | .text "fill" => readPoint codec
  | .text "draw" => readDraw codec command.place
  | .text "node" => readLabel codec
  | .text "begin" => readEnvironment .beginPicture
  | .text "end" => readEnvironment .endPicture
  | name => failAt command.place (.unsupportedCommand name)

/-- A statement, its semicolon, and the comment after it; nothing may follow. -/
def readWhole (codec : Given R (Codec R)) : TokenReader R (Statement R) := do
  let command ← expect .command
  let body ← readBody codec command
  if !body.isWrapper then
    let _ ← expect .semicolon
  let comment := match ← accept? .comment with
    | some t => t.text
    | none => .text ""
  match ← get with
  | [] => return ⟨command.place, body, comment⟩
  | t :: _ => failAt t.place (.trailingToken t.text)

/-- The statement on a line of tokens; nothing if there is no token, or only a comment. -/
def readStatement (codec : Given R (Codec R)) (tokens : List (Token R)) :
    Except (Fault R) (Option (Statement R)) :=
  match tokens with
  | [] => .ok none
  | t :: _ =>
    if t.kind = .comment then .ok none
    else do return some (← (readWhole codec).run' tokens)

end FeynmanTikz
