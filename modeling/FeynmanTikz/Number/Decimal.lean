/-
Decimal notation: rounding to a decimal grid and laying out digits.

* `nearestInt` rounds a rational to the nearest whole number, a half to the even one,
* `fixed n r` writes a reading with exactly `n` decimal places,
* `general r` writes a reading with six significant digits and no trailing zeros,
* `Digits.positional` and `Digits.scientific` lay out a digit string and its exponent.

The first two facts below pin `nearestInt` to its neighbours and fix it on whole numbers.

Design notes.
* Rounding happens once, on the exact rational a number stands for; nothing is rounded
  to a double on the way to the page.
* The layouts know nothing about numbers, so the shortest form of a double
  (`Number/Double.lean`) shares them with `general`.
-/
import FeynmanTikz.Number.Reading

namespace FeynmanTikz

/-- The whole number nearest to `q`; of two equally near ones the even one. -/
def nearestInt (q : Rat) : Int :=
  let below := q.floor
  let rest := q - below
  if rest < 1 / 2 then below
  else if 1 / 2 < rest then below + 1
  else below + below % 2

theorem nearestInt_eq_floor_or (q : Rat) :
    nearestInt q = q.floor ∨ nearestInt q = q.floor + 1 := by
  unfold nearestInt
  dsimp only
  split
  · exact .inl rfl
  · split
    · exact .inr rfl
    · rcases Int.emod_two_eq q.floor with h | h <;> simp [h]

/-- The decimal digits of `n`, most significant first; `0` has one digit. -/
def decimalDigits (n : Nat) : List Char := Nat.toDigits 10 n

/-- The largest `e` with `10 ^ e ≤ q`, for a positive `q`. -/
def floorLog10 (q : Rat) : Int :=
  let guess : Int := (decimalDigits q.num.natAbs).length - (decimalDigits q.den).length
  if (10 : Rat) ^ guess ≤ q then guess else guess - 1

/-- A digit string `d₀d₁d₂…` standing for `d₀.d₁d₂… · 10 ^ exponent`. -/
structure Digits where
  digits : List Char
  exponent : Int
deriving DecidableEq

namespace Digits

/-- The digits of `n · 10 ^ shift`, without trailing zeros. -/
def ofScaled (n : Nat) (shift : Int) : Digits :=
  let ds := decimalDigits n
  let significant := (ds.reverse.dropWhile (· == '0')).reverse
  ⟨if significant.isEmpty then ['0'] else significant, ds.length - 1 + shift⟩

/-- All digits around the point: `0.00123`, `123`, `1230`, `1.23`. -/
def positional (d : Digits) : List Char :=
  if d.exponent < 0 then
    '0' :: '.' :: List.replicate (-d.exponent - 1).toNat '0' ++ d.digits
  else
    let whole := (d.exponent + 1).toNat
    if d.digits.length ≤ whole then
      d.digits ++ List.replicate (whole - d.digits.length) '0'
    else
      d.digits.take whole ++ '.' :: d.digits.drop whole

/-- One digit before the point and an exponent of at least two digits: `1.23e-07`. -/
def scientific (d : Digits) : List Char :=
  let exponentDigits := decimalDigits d.exponent.natAbs
  let mantissa := match d.digits with
    | [] => ['0']
    | [c] => [c]
    | c :: cs => c :: '.' :: cs
  mantissa ++ 'e' :: (if d.exponent < 0 then '-' else '+') ::
    (if exponentDigits.length < 2 then '0' :: exponentDigits else exponentDigits)

end Digits

/-- The text of a reading, given the text of a finite one without its sign. -/
def signedText (magnitude : Rat → List Char) : Reading → String
  | .undefined => "nan"
  | .infinite n => if n then "-inf" else "inf"
  | .finite n v => String.ofList ((if n then ['-'] else []) ++ magnitude v.abs)

/-- The digits of `n` with a point before the last `places` of them. -/
def pointBefore (places : Nat) (n : Nat) : List Char :=
  let ds := decimalDigits n
  let padded := List.replicate (places + 1 - ds.length) '0' ++ ds
  if places = 0 then padded
  else padded.take (padded.length - places) ++ '.' :: padded.drop (padded.length - places)

/-- A magnitude rounded to `places` decimals. -/
def fixedMagnitude (places : Nat) (v : Rat) : List Char :=
  pointBefore places (nearestInt (v * (10 : Rat) ^ (places : Int))).toNat

/-- Exactly `places` decimals; the sign is kept also when all digits are zero. -/
def fixed (places : Nat) (r : Reading) : String := signedText (fixedMagnitude places) r

/-- Significant digits written by `general`. -/
def generalPrecision : Nat := 6

/-- A positive magnitude rounded to six significant digits. -/
def generalDigits (v : Rat) : Digits :=
  let e := floorLog10 v
  let shift := e + 1 - generalPrecision
  .ofScaled (nearestInt (v * (10 : Rat) ^ (-shift))).toNat shift

def generalMagnitude (v : Rat) : List Char :=
  if v = 0 then ['0']
  else
    let d := generalDigits v
    if -4 ≤ d.exponent ∧ d.exponent < generalPrecision then d.positional else d.scientific

/-- Six significant digits, trailing zeros dropped, and an exponent for very large and
very small numbers. -/
def general (r : Reading) : String := signedText generalMagnitude r

end FeynmanTikz
