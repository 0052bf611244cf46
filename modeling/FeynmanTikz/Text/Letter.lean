/-
ASCII letters, and lower and upper case as far as ASCII words can be made of it.

All words this library looks for (colour names, option keys, level names) are ASCII.  So a
case map is needed only for the characters whose image is ASCII: the ASCII letters and a
handful of others.  Every other character is left alone, and no comparison with an ASCII
word can tell.
-/

namespace FeynmanTikz

/-- `A`–`Z` and `a`–`z`. -/
def isLetter (c : Char) : Bool := c.isAlpha

/-- Lower case.  Outside ASCII the Kelvin sign is the only character whose lower case is
an ASCII letter. -/
def lowerChar (c : Char) : Char := if c.toNat = 0x212a then 'k' else c.toLower

def lower (t : List Char) : List Char := t.map lowerChar

/-- Upper case.  Outside ASCII these are the characters whose upper case is made of ASCII
letters alone. -/
def upperChar (c : Char) : List Char :=
  match c.toNat with
  | 0xdf => ['S', 'S']
  | 0x131 => ['I']
  | 0x17f => ['S']
  | 0xfb00 => ['F', 'F']
  | 0xfb01 => ['F', 'I']
  | 0xfb02 => ['F', 'L']
  | 0xfb03 => ['F', 'F', 'I']
  | 0xfb04 => ['F', 'F', 'L']
  | 0xfb05 | 0xfb06 => ['S', 'T']
  | _ => [c.toUpper]

def upper (t : List Char) : List Char := t.flatMap upperChar

end FeynmanTikz
