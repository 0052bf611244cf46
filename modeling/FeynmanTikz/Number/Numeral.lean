/-
Numerals: numbers written in a text.

A numeral is an optional sign, digits with an optional point, and an optional power of ten:
`-1.5`, `.5`, `2.`, `1e-3`.  The digits may be decimal digits of any script.

* `numeralLexeme?`: the longest numeral at the start of a text,
* `Numeral.ofText?`: a whole text as a numeral; blanks around it, but not the separators of
  pieces of text, and single underscores between digits are allowed, and so are the names of the
  numbers that are not finite,
* `Numeral.toReal`: the number nearest to a numeral.
-/
import FeynmanTikz.Number.Reading
import FeynmanTikz.Text.Blank
import FeynmanTikz.Text.Digit
import FeynmanTikz.Text.Letter

namespace FeynmanTikz

/-- Splits off the decimal digits at the start of a text. -/
def spanDigits (t : List Char) : List Char × List Char :=
  (t.takeWhile isDecimalDigit, t.dropWhile isDecimalDigit)

/-- Splits off a sign. -/
def spanSign : List Char → List Char × List Char
  | '+' :: rest => (['+'], rest)
  | '-' :: rest => (['-'], rest)
  | t => ([], t)

/-- Digits before and after the point, and what follows.  One side may be empty, but not
both. -/
structure Mantissa where
  whole : List Char
  point : Bool
  fraction : List Char
  rest : List Char

/-- The mantissa at the start of a text. -/
def mantissa? (t : List Char) : Option Mantissa :=
  match spanDigits t with
  | ([], '.' :: rest) =>
    match spanDigits rest with
    | ([], _) => none
    | (fraction, rest) => some ⟨[], true, fraction, rest⟩
  | ([], _) => none
  | (whole, '.' :: rest) =>
    let (fraction, rest) := spanDigits rest
    some ⟨whole, true, fraction, rest⟩
  | (whole, rest) => some ⟨whole, false, [], rest⟩

def Mantissa.text (m : Mantissa) : List Char :=
  m.whole ++ (if m.point then ['.'] else []) ++ m.fraction

/-- A power of ten with its mark and sign, and what follows. -/
structure Exponent where
  mark : List Char
  sign : List Char
  digits : List Char
  rest : List Char

/-- The power of ten at the start of a text; a mark without digits is none. -/
def exponent? : List Char → Option Exponent
  | c :: rest =>
    if c = 'e' ∨ c = 'E' then
      let (sign, rest) := spanSign rest
      match spanDigits rest with
      | ([], _) => none
      | (digits, rest) => some ⟨[c], sign, digits, rest⟩
    else none
  | [] => none

/-- The numeral at the start of a text, and what follows it. -/
def numeralLexeme? (t : List Char) : Option (List Char × List Char) := do
  let (sign, rest) := spanSign t
  let m ← mantissa? rest
  match exponent? m.rest with
  | some e => return (sign ++ m.text ++ e.mark ++ e.sign ++ e.digits, e.rest)
  | none => return (sign ++ m.text, m.rest)

/-- What a numeral says: a decimal, or a number that is not finite. -/
inductive Numeral where
  | decimal (negative : Bool) (digits : Nat) (exponent : Int)
  | infinite (negative : Bool)
  | undefined
deriving DecidableEq

namespace Numeral

def isMinus (sign : List Char) : Bool := sign == ['-']

/-- The numeral with the given parts. -/
def ofParts (sign : List Char) (m : Mantissa) (exponent : Int) : Numeral :=
  .decimal (isMinus sign) (digitsValue (m.whole ++ m.fraction)) (exponent - m.fraction.length)

/-- A whole text as a numeral with digits. -/
def ofDigits? (t : List Char) : Option Numeral :=
  let (sign, rest) := spanSign t
  match mantissa? rest with
  | none => none
  | some m =>
    match m.rest, exponent? m.rest with
    | [], _ => some (ofParts sign m 0)
    | _, some e =>
      if e.rest.isEmpty then
        let n : Int := digitsValue e.digits
        some (ofParts sign m (if isMinus e.sign then -n else n))
      else none
    | _, none => none

/-- A number that is not finite, by its name in any case. -/
def ofName? (t : List Char) : Option Numeral :=
  let (sign, name) := spanSign t
  match String.ofList (lower name) with
  | "inf" | "infinity" => some (.infinite (isMinus sign))
  | "nan" => some .undefined
  | _ => none

/-- The text without its underscores, if each of them stands between two digits. -/
def withoutUnderscores? (before : Option Char) : List Char → Option (List Char)
  | [] => some []
  | '_' :: rest =>
    if before.any isDecimalDigit && rest.head?.any isDecimalDigit then
      withoutUnderscores? (some '_') rest
    else none
  | c :: rest => (withoutUnderscores? (some c) rest).map (c :: ·)

/-- Control characters that separate pieces of text.  They are blanks, but none that may stand
around a numeral. -/
def isTextSeparator (c : Char) : Bool := 0x1c ≤ c.toNat && c.toNat ≤ 0x1f

/-- Blanks that may stand around a numeral. -/
def isOuterBlank (c : Char) : Bool := isBlank c && !isTextSeparator c

/-- A whole text as a numeral. -/
def ofText? (t : List Char) : Option Numeral :=
  let t := dropEndWhile isOuterBlank (t.dropWhile isOuterBlank)
  match ofName? t with
  | some n => some n
  | none => do ofDigits? (← withoutUnderscores? none t)

/-- The number nearest to a numeral. -/
def toReal {R : Type} [Arithmetic R] : Numeral → R
  | .infinite negative => Arithmetic.ofReading (.infinite negative)
  | .undefined => Arithmetic.ofReading .undefined
  | .decimal negative digits exponent =>
    let x : R := Arithmetic.ofDecimal digits exponent
    if negative then -x else x

end Numeral

end FeynmanTikz
