/-
Tokens of a statement line.

A token knows its kind, its text and where it starts.  The text of a group or an option
list is what stands between its brackets, that of a command lacks the backslash, that of a
comment is the trimmed rest of the line.

Design notes.
* Tokens are cut from a line, but may also be handed in.  Then the text and the place are whatever
  they are, and are only looked at by what needs them.
-/
import FeynmanTikz.Value

namespace FeynmanTikz

/-- The kinds of token. -/
inductive TokenKind where
  | leftParen
  | rightParen
  | comma
  | semicolon
  /-- A backslash and letters. -/
  | command
  /-- An option list in square brackets. -/
  | attributes
  /-- A group in braces. -/
  | group
  | dashes
  | dots
  | number
  /-- ASCII letters. -/
  | word
  | comment
  /-- A kind no line is ever cut into, by its name. -/
  | other (name : String)
deriving DecidableEq, Repr

namespace TokenKind

/-- The name of a kind in messages. -/
def name : TokenKind → String
  | leftParen => "LPAREN"
  | rightParen => "RPAREN"
  | comma => "COMMA"
  | semicolon => "SEMI"
  | command => "CMD"
  | attributes => "ATTRS"
  | group => "GROUP"
  | dashes => "DASHDASH"
  | dots => "DOTDOT"
  | number => "NUMBER"
  | word => "ID"
  | comment => "COMMENT"
  | other name => name

/-- The kinds of the tokens a line is cut into. -/
def all : List TokenKind :=
  [leftParen, rightParen, comma, semicolon, command, attributes, group, dashes, dots, number,
   word, comment]

/-- The kind with a given name. -/
def ofName (name : String) : TokenKind := (all.find? (·.name == name)).getD (.other name)

/-- The kind of a token that is handed in.  What is no text names no kind that is asked for. -/
def ofValue {R : Type} [Arithmetic R] : Value R → TokenKind
  | .text name => ofName name
  | v => .other v.plain

end TokenKind

/-- A place in a text; lines and columns count from one. -/
structure Place (R : Type) where
  line : Value R
  column : Value R

structure Token (R : Type) where
  kind : TokenKind
  text : Value R
  place : Place R

namespace Place

variable {R : Type}

/-- The column as a number; the first one if it is none. -/
def columnNumber (p : Place R) : Int :=
  match p.column with
  | .number (.int n) => n
  | _ => 1

variable [Arithmetic R]

/-- A place as it stands before a message. -/
def tag (p : Place R) : String := "[line " ++ p.line.plain ++ ", col " ++ p.column.plain ++ "] "

end Place

end FeynmanTikz
