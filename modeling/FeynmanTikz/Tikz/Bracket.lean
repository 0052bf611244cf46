/-
Brackets: finding the one that closes another.

Inside square brackets both square brackets and braces nest; inside braces only braces do
and square brackets are plain.  A backslash takes the next character with it.

* `scanClosing inner outer rest` reads `rest`, which follows an opening bracket, up to the
  partner of the outermost open bracket.

Design notes.
* The scanner keeps the open brackets as a nonempty stack: the innermost one and those
  around it.  It returns what stands between the outermost pair and what follows.
-/

namespace FeynmanTikz

/-- The two kinds of bracket that nest. -/
inductive Bracket where
  | square
  | brace
deriving DecidableEq, Repr

namespace Bracket

def opening : Bracket → Char
  | square => '['
  | brace => '{'

def closing : Bracket → Char
  | square => ']'
  | brace => '}'

end Bracket

/-- The outcome of looking for a closing bracket. -/
inductive Scan where
  /-- What stands before the closing bracket and what follows it. -/
  | closed (content rest : List Char)
  /-- The character at `offset` closes a bracket that is not open. -/
  | mismatched (offset : Nat) (got : Char)
  | unterminated
deriving DecidableEq, Repr

/-- The outcome when `cs` stands in front of what was scanned. -/
def Scan.after (cs : List Char) : Scan → Scan
  | closed content rest => closed (cs ++ content) rest
  | mismatched offset got => mismatched (cs.length + offset) got
  | unterminated => unterminated

/-- The bracket that `c` opens inside `inner`. -/
def opens? (inner : Bracket) (c : Char) : Option Bracket :=
  if c = '{' then some .brace
  else if c = '[' ∧ inner = .square then some .square
  else none

/-- Whether `c` closes a bracket, right or wrong, inside `inner`. -/
def closes (inner : Bracket) (c : Char) : Bool :=
  c == '}' || (c == ']' && inner == .square)

/-- Reads up to the bracket that closes the outermost open one.  `inner` is the innermost
open bracket, `outer` are those around it. -/
def scanClosing (inner : Bracket) (outer : List Bracket) : List Char → Scan
  | [] => .unterminated
  | '\\' :: [] => .unterminated
  | '\\' :: c :: rest => (scanClosing inner outer rest).after ['\\', c]
  | c :: rest =>
    match opens? inner c with
    | some b => (scanClosing b (inner :: outer) rest).after [c]
    | none =>
      if closes inner c then
        if c ≠ inner.closing then .mismatched 0 c
        else match outer with
          | [] => .closed [] rest
          | b :: bs => (scanClosing b bs rest).after [c]
      else (scanClosing inner outer rest).after [c]

end FeynmanTikz
