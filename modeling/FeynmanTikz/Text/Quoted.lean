/-
Quoted text: how a piece of text is shown in a message.

The text stands between single quotes, or between double quotes when it holds a single
quote and no double one.  A backslash and the quote in use are escaped with a backslash,
tab, line feed and carriage return have short escapes, and every other character that is
not printable is given by its code point: two digits after `\x`, four after `\u`, eight
after `\U`.
-/
import FeynmanTikz.Text.Printable

namespace FeynmanTikz

/-- The last `width` hexadecimal digits of `n`, in lower case. -/
def hexDigits (width : Nat) (n : Nat) : List Char :=
  let ds := Nat.toDigits 16 n
  List.replicate (width - ds.length) '0' ++ ds

/-- The quote put around `t`. -/
def quoteFor (t : List Char) : Char :=
  if t.contains '\'' && !t.contains '"' then '"' else '\''

/-- One character inside the quotes `q`. -/
def quotedChar (q c : Char) : List Char :=
  if c = q ∨ c = '\\' then ['\\', c]
  else if c = '\t' then ['\\', 't']
  else if c = '\n' then ['\\', 'n']
  else if c = '\r' then ['\\', 'r']
  else if isPrintable c then [c]
  else if c.toNat < 0x100 then '\\' :: 'x' :: hexDigits 2 c.toNat
  else if c.toNat < 0x10000 then '\\' :: 'u' :: hexDigits 4 c.toNat
  else '\\' :: 'U' :: hexDigits 8 c.toNat

/-- The text between quotes. -/
def quoted (t : List Char) : List Char :=
  let q := quoteFor t
  q :: t.flatMap (quotedChar q) ++ [q]

/-- The text between quotes, as a string. -/
def quotedString (t : List Char) : String := String.ofList (quoted t)

end FeynmanTikz
