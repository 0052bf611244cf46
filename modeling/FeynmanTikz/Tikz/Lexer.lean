/-
Cutting a line into tokens.

* `lexeme c rest`: the token that starts with `c`, and how many of the characters after `c`
  belong to it,
* `tokenize line text`: all tokens of a line, up to a comment, which takes the rest.

Design notes.
* Spaces, tabs and carriage returns separate tokens and mean nothing else.
* Every lexeme is as long as it can be, except that `--` and `..` come before numbers.
* The text of a token is cut out of the line, so a line is its lexemes and blanks.
-/
import FeynmanTikz.Fault
import FeynmanTikz.Number.Numeral
import FeynmanTikz.Text.Letter
import FeynmanTikz.Tikz.Bracket

namespace FeynmanTikz

/-- A token without its place; `extra` counts its characters after the first one. -/
structure Lexeme where
  kind : TokenKind
  text : List Char
  extra : Nat

/-- Characters that separate tokens. -/
def isSeparator (c : Char) : Bool := c == ' ' || c == '\t' || c == '\r'

/-- Tokens of a single character. -/
def symbolKind? : Char → Option TokenKind
  | '(' => some .leftParen
  | ')' => some .rightParen
  | ',' => some .comma
  | ';' => some .semicolon
  | _ => none

/-- What is wrong at the start of a text, and how many characters on. -/
abbrev LexFailure (R : Type) := ReadProblem R × Nat

/-- An option list or a group, whose opening bracket has been read. -/
def bracketLexeme {R : Type} (b : Bracket) (rest : List Char) : Except (LexFailure R) Lexeme :=
  match scanClosing b [] rest with
  | .closed content _ =>
    .ok ⟨match b with | .square => .attributes | .brace => .group, content, content.length + 1⟩
  | .mismatched offset got => .error (.mismatchedBracket got, offset + 1)
  | .unterminated => .error (.unterminatedBracket b.opening, 0)

/-- The token that starts with `c`. -/
def lexeme {R : Type} (c : Char) (rest : List Char) : Except (LexFailure R) Lexeme :=
  if c = '%' then .ok ⟨.comment, trim rest, rest.length⟩
  else if c = '\\' then
    let name := rest.takeWhile isLetter
    if name.isEmpty then .error (.missingCommandName, 0)
    else .ok ⟨.command, name, name.length⟩
  else if c = '[' then bracketLexeme .square rest
  else if c = '{' then bracketLexeme .brace rest
  else if c = '-' ∧ rest.head? = some '-' then .ok ⟨.dashes, ['-', '-'], 1⟩
  else if c = '.' ∧ rest.head? = some '.' then .ok ⟨.dots, ['.', '.'], 1⟩
  else match numeralLexeme? (c :: rest) with
    | some (text, _) => .ok ⟨.number, text, text.length - 1⟩
    | none =>
      if isLetter c then
        let more := rest.takeWhile isLetter
        .ok ⟨.word, c :: more, more.length⟩
      else match symbolKind? c with
        | some kind => .ok ⟨kind, [c], 0⟩
        | none => .error (.unexpectedCharacter c, 0)

/-- The tokens of a text that starts at a column of a line. -/
def tokenizeFrom {R : Type} (line : Value R) (column : Int) :
    List Char → Except (Fault R) (List (Token R))
  | [] => .ok []
  | c :: rest =>
    if isSeparator c then tokenizeFrom line (column + 1) rest
    else match lexeme c rest with
      | .error (problem, offset) =>
        .error (.unreadable { place := some ⟨line, .int (column + offset)⟩, problem })
      | .ok l =>
        match tokenizeFrom line (column + 1 + l.extra) (rest.drop l.extra) with
        | .error e => .error e
        | .ok tokens => .ok (⟨l.kind, .text (String.ofList l.text), line, .int column⟩ :: tokens)
termination_by t => t.length
decreasing_by
  · simp
  · simp only [List.length_drop, List.length_cons]
    omega

/-- The tokens of a line, whatever number it is given. -/
def tokenize {R : Type} (line : Value R) (text : List Char) :
    Except (Fault R) (List (Token R)) :=
  tokenizeFrom line 1 text

end FeynmanTikz
