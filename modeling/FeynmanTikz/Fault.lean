/-
Everything that can go wrong, and the words for it.

* `Violation`: an element or a whole diagram that is not what it should be,
* `Complaint`: a value that is of the right type but has no meaning where it stands,
* `ReadFailure`: a text that is not a document of the accepted subset, with the place and,
  when it is known, the line at fault,
* `Fault`: any of these, and the failures of look-ups, arithmetic and files.

Each has one function that gives its message.

Design notes.
* The causes are data; the wording is in this file only.
* A read failure that comes from building an element keeps the cause it came from.
-/
import FeynmanTikz.Tikz.Token

namespace FeynmanTikz

/-- What a violation is about.  An id stands here as it was given. -/
inductive Subject where
  | point (id : String)
  | edge (id : String)
  | ellipse (id : String)
  | label (id : String)
  /-- Anything else, by the name the caller gives it. -/
  | named (name : String)
deriving DecidableEq

def Subject.name : Subject → String
  | point id => "point #" ++ id
  | edge id => "edge #" ++ id
  | ellipse id => "ellipse #" ++ id
  | label id => "label #" ++ id
  | named name => name

/-- The measured parts of an element. -/
inductive Part where
  | position
  | radius
  | start
  | finish
  | control
  | center
  | rx
  | ry
  | strokeWidth
  | bindingOffset
deriving DecidableEq

def Part.name : Part → String
  | position => "position"
  | radius => "radius"
  | start => "start"
  | finish => "end"
  | control => "control"
  | center => "center"
  | rx => "rx"
  | ry => "ry"
  | strokeWidth => "stroke width"
  | bindingOffset => "binding offset"

/-- What is wrong with an element. -/
inductive Problem (R : Type) where
  | notPair (part : Part) (got : Value R)
  | notFinitePair (part : Part) (got : Value R)
  | farPair (part : Part) (got : Value R)
  | notFinite (part : Part) (got : Value R)
  | tooLarge (part : Part) (got : Value R)
  | tooSmall (part : Part) (least : String) (got : Value R)
  | notPositive (part : Part) (got : Value R)
  | notTriple (got : Value R)
  | badComponent (got : Value R)
  | unknownStroke (got : Value R)
  | unknownArrow (got : Value R)
  | unknownKind (got : Value R)
  | missingControl
  | strayControl
  | textNotString
  | textNotLine
  | textUnbalanced
  | textDangling
  | unknownAnchor (got : Value R)
  | boundToMissing (edge : Value R)
  | cannotBind (edge : Value R)
  | cannotUpdate (fields : List String)

/-- The bound on coordinates and lengths, as it is written in messages. -/
def magnitudeText : String := "1e+09"

def Problem.message {R : Type} [Arithmetic R] : Problem R → String
  | notPair p got => p.name ++ " must be an (x, y) pair, got " ++ got.written
  | notFinitePair p got => p.name ++ " must be finite, got " ++ got.written
  | farPair p got => p.name ++ " exceeds " ++ magnitudeText ++ " in magnitude, got " ++ got.written
  | notFinite p got => p.name ++ " must be a finite number, got " ++ got.written
  | tooLarge p got => p.name ++ " exceeds " ++ magnitudeText ++ ", got " ++ got.written
  | tooSmall p least got => p.name ++ " must be at least " ++ least ++ ", got " ++ got.written
  | notPositive p got => p.name ++ " must be positive, got " ++ got.written
  | notTriple got => "color must be an RGB triple, got " ++ got.written
  | badComponent got => "color components must be integers in 0..255, got " ++ got.written
  | unknownStroke got => "unknown stroke kind " ++ got.written
  | unknownArrow got => "unknown arrow style " ++ got.written
  | unknownKind got => "kind must be straight|curve, got " ++ got.written
  | missingControl => "curve edge requires a control point"
  | strayControl => "straight edge must not carry a control point"
  | textNotString => "text must be a string"
  | textNotLine => "text must be a single line"
  | textUnbalanced => "text has unbalanced braces"
  | textDangling => "text must not end with a dangling backslash"
  | unknownAnchor got => "anchor must be start|mid|end, got " ++ got.written
  | boundToMissing e => "bound to missing edge #" ++ e.plain
  | cannotBind e => "cannot bind to missing edge #" ++ e.plain
  | cannotUpdate fields =>
    "cannot update " ++ Value.listText (fields.map fun f => quotedString f.toList)

/-- A diagram that breaks its rules. -/
inductive Violation (R : Type) where
  | element (subject : Subject) (problem : Problem R)
  | misplaced (id key : Value R)
  | duplicate (id : Value R)
  | reusable (next largest : Value R)

def Violation.message {R : Type} [Arithmetic R] : Violation R → String
  | element s p => s.name ++ ": " ++ p.message
  | misplaced id key => "element #" ++ id.plain ++ " stored under id " ++ key.plain
  | duplicate id => "duplicate id " ++ id.plain
  | reusable next largest =>
    "id allocator at " ++ next.plain ++ " would reuse id " ++ largest.plain

/-- A value without a meaning where it stands. -/
inductive Complaint (R : Type) where
  | unknownAnchor (got : Value R)
  | unknownArrow (got : Value R)
  | unknownElement (got : Value R)
  | unsupportedWidth (got : List Char)
  | widthNotFinite (got : List Char)
  /-- A numeral with more digits than are read. -/
  | tooManyDigits (count : Nat)
  /-- A sequence of the wrong length, or sequences of lengths that do not fit. -/
  | wrongCount
  /-- A number of decimals that cannot be written, or a value that is no number. -/
  | unformattable
  | negativeCount
  | tooManySamples
  | notNumeral
  | unknownLevel

/-- Digits of the longest whole number that is read. -/
def digitLimit : Nat := 4300

def Complaint.message {R : Type} [Arithmetic R] : Complaint R → String
  | unknownAnchor got => "unknown anchor " ++ got.written
  | unknownArrow got => "unknown arrow style " ++ got.written
  | unknownElement got => "unknown element " ++ got.written
  | unsupportedWidth got => "unsupported line width " ++ quotedString got
  | widthNotFinite got => "line width " ++ quotedString got ++ " is not finite"
  | tooManyDigits count =>
    "Exceeds the limit (" ++ toString digitLimit ++ " digits) for integer string conversion: " ++
      "value has " ++ toString count ++
      " digits; use sys.set_int_max_str_digits() to increase the limit"
  | wrongCount => "wrong number of components"
  | unformattable => "value cannot be formatted"
  | negativeCount => "negative number of samples"
  | tooManySamples => "too many samples"
  | notNumeral => "not a numeral"
  | unknownLevel => "unknown level"

/-- Why a text is not a document. -/
inductive ReadProblem (R : Type) where
  | mismatchedBracket (got : Char)
  | unterminatedBracket (opening : Char)
  | missingCommandName
  | unexpectedCharacter (got : Char)
  | unexpectedToken (wanted : TokenKind) (got : Token R)
  | unexpectedEnd (wanted : TokenKind)
  | wrongWord (wanted : String) (got : Value R)
  | numberNotFinite (got : Value R)
  | coordinateOutOfRange
  | lengthOutOfRange
  | noPath
  | unterminatedDraw
  | wrongEnvironment
  | unsupportedCommand (name : Value R)
  | trailingToken (got : Value R)
  | invalidElement (violation : Violation R)
  | unusableOption (complaint : Complaint R)

/-- The environment a picture stands in. -/
def pictureEnvironment : String := "tikzpicture"

def ReadProblem.message {R : Type} [Arithmetic R] : ReadProblem R → String
  | mismatchedBracket c => "mismatched " ++ quotedString [c]
  | unterminatedBracket c => "unterminated " ++ quotedString [c]
  | missingCommandName => "expected a command name after \"\\\""
  | unexpectedCharacter c => "unexpected character: " ++ quotedString [c]
  | unexpectedToken wanted got =>
    "expected " ++ wanted.name ++ ", got " ++ got.kind.name ++ " " ++ got.text.written
  | unexpectedEnd wanted => "Unexpected end of line: expected " ++ wanted.name
  | wrongWord wanted got => "expected '" ++ wanted ++ "', got '" ++ got.plain ++ "'"
  | numberNotFinite got => "number " ++ got.written ++ " is not finite"
  | coordinateOutOfRange => "coordinate out of range"
  | lengthOutOfRange => "length out of range"
  | noPath => "expected '--', '.. controls' or 'ellipse'"
  | unterminatedDraw => "unterminated \\draw statement"
  | wrongEnvironment => "only the '" ++ pictureEnvironment ++ "' environment is supported"
  | unsupportedCommand name => "unsupported command \"\\" ++ name.plain ++ "\""
  | trailingToken got => "unexpected token " ++ got.written
  | invalidElement v => v.message
  | unusableOption c => c.message

/-- A text that is not a document.  A line that ends too early has no place to point at. -/
structure ReadFailure (R : Type) where
  place : Option (Place R)
  problem : ReadProblem R
  /-- The line at fault, shown under the message. -/
  excerpt : Option (List Char) := none

/-- The line at fault and a caret under the column at fault. -/
def excerptText (line : List Char) (column : Int) : String :=
  "\n    " ++ String.ofList (trimRight line) ++
    "\n    " ++ String.ofList (List.replicate (column - 1).toNat ' ') ++ "^"

def ReadFailure.message {R : Type} [Arithmetic R] (f : ReadFailure R) : String :=
  match f.place, f.excerpt with
  | none, _ => f.problem.message
  | some p, none => p.tag ++ f.problem.message
  | some p, some line => p.tag ++ f.problem.message ++ excerptText line p.columnNumber

/-- Why an operation did not succeed. -/
inductive Fault (R : Type) where
  | unreadable (failure : ReadFailure R)
  | invalid (violation : Violation R)
  | refused (complaint : Complaint R)
  | missingKey (key : Value R)
  | wrongType
  /-- A value without the field that is asked for. -/
  | missingField
  /-- An array whose cells are not all numbers. -/
  | notNumeric
  /-- An array without the dimension that is asked for. -/
  | noDimension
  | outOfBounds
  | arithmetic (fault : ArithmeticFault)
  | missingFile
  | undecodable
  | notADirectory
  | isADirectory
  | fileExists

/-- The message of a fault, where the library has words of its own for it. -/
def Fault.message? {R : Type} [Arithmetic R] : Fault R → Option String
  | unreadable f => some f.message
  | invalid v => some v.message
  | refused c => match c with
    | .unknownAnchor _ | .unknownArrow _ | .unknownElement _ | .unsupportedWidth _
    | .widthNotFinite _ => some c.message
    | _ => none
  | missingKey k => some k.written
  | _ => none

end FeynmanTikz
