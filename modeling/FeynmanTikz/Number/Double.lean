/-
Binary64 numbers as an instance of `Arithmetic`.

* `Double.reading` decodes the bit pattern into the rational it stands for,
* `Double.ofReading` gives the nearest double to a reading, ties to even,
* `Double.shortest` finds the fewest digits that read back as the same double, and among
  those the nearest to it,
* `Double.floorDiv` and `Double.hypot`: how often one double goes into another, and the length of
  a vector.

Design notes.
* All conversions are exact rational arithmetic followed by one rounding.  The four
  operations are the machine's own, which round the same way.
* `floorDiv` and `hypot` give the exact result rounded once.  Another library may be off by a unit in
  the last place, and what is proved about lengths leaves room for that.
* A double `m · 2 ^ q` owns the interval of rationals that round to it; its ends belong to
  it iff `m` is even.  If a decimal grid has a point in that interval, one of the two grid
  neighbours of the double lies in it, so looking at those two is enough.
-/
import FeynmanTikz.Number.Decimal

namespace FeynmanTikz.Double

/-- The largest `e` with `2 ^ e ≤ q`, for a positive `q`. -/
def floorLog2 (q : Rat) : Int :=
  let guess : Int := q.num.natAbs.log2 - (q.den.log2 : Int)
  if (2 : Rat) ^ guess ≤ q then guess else guess - 1

/-- The exponent of the smallest positive double. -/
def minExponent : Int := -1074

/-- Bits of a mantissa, the leading one included. -/
def mantissaBits : Nat := 53

/-- The leading bit of a mantissa, which is also the unit of the exponent in a bit pattern. -/
def leadingBit : Nat := Nat.pow 2 (mantissaBits - 1)

/-- The bit pattern of infinity. -/
def infinityBits : Nat := 2047 * leadingBit

/-- The bit pattern of the double nearest to a positive rational.  Mantissa and exponent
are added, so that a mantissa rounded up to the next power of two carries by itself. -/
def nearestBits (q : Rat) : Nat :=
  let e := max (floorLog2 q + 1 - mantissaBits) minExponent
  let mantissa := (nearestInt (q / (2 : Rat) ^ e)).toNat
  let bits := (e - minExponent).toNat * leadingBit + mantissa
  min bits infinityBits

/-- The sign of a bit pattern. -/
def signBit : Nat := Nat.pow 2 63

/-- The double with the given sign and the given bits below the sign. -/
def ofMagnitude (negative : Bool) (bits : Nat) : Float :=
  Float.ofBits (UInt64.ofNat (bits + if negative then signBit else 0))

/-- The bit pattern of an undefined number. -/
def undefinedBits : Nat := infinityBits + leadingBit / 2

/-- The double nearest to a reading, ties to even; too large a magnitude gives an infinity.
The sign is that of the reading, also where the magnitude is rounded to zero. -/
def ofReading : Reading → Float
  | .undefined => ofMagnitude false undefinedBits
  | .infinite n => ofMagnitude n infinityBits
  | .finite n q => ofMagnitude n (if q = 0 then 0 else nearestBits q.abs)

/-- The double nearest to `q`. -/
def nearest (q : Rat) : Float := ofReading (.ofRat q)

/-- Mantissa and exponent of a finite double without its sign. -/
def mantissaExponent (bits : Nat) : Nat × Int :=
  let e := bits / leadingBit % 2048
  let f := bits % leadingBit
  if e = 0 then (f, minExponent) else (f + leadingBit, minExponent + e - 1)

/-- What a double stands for. -/
def reading (x : Float) : Reading :=
  let bits := x.toBits.toNat
  let negative := decide (signBit ≤ bits)
  if bits / leadingBit % 2048 = 2047 then
    if bits % leadingBit = 0 then .infinite negative else .undefined
  else
    let (m, e) := mantissaExponent bits
    let v := (m : Rat) * (2 : Rat) ^ e
    .finite negative (if negative then -v else v)

/-- Powers of ten that cannot be finite doubles are not computed. -/
def decimalRange : Int := 400

/-- The double nearest to `m · 10 ^ e`. -/
def ofDecimal (m : Nat) (e : Int) : Float :=
  if m = 0 then nearest 0
  else
    let magnitude := e + (decimalDigits m).length
    if magnitude < -decimalRange then nearest 0
    else if decimalRange < magnitude then ofMagnitude false infinityBits
    else nearest (m * (10 : Rat) ^ e)

/-- The rationals that round to a double, as ends and whether these belong to it. -/
structure Interval where
  low : Rat
  high : Rat
  closed : Bool

/-- The interval of a positive double `m · 2 ^ e`. -/
def interval (m : Nat) (e : Int) : Interval :=
  let unit := (2 : Rat) ^ e
  let below : Rat := if m = leadingBit ∧ minExponent < e then 1 / 4 else 1 / 2
  ⟨(m - below) * unit, (m + 1 / 2) * unit, m % 2 == 0⟩

def Interval.contains (i : Interval) (q : Rat) : Bool :=
  if i.closed then i.low ≤ q && q ≤ i.high else i.low < q && q < i.high

/-- The point of the grid `10 ^ shift · ℕ` nearest to `v`, among the two around it that
lie in the interval. -/
def gridPoint? (i : Interval) (v : Rat) (shift : Int) : Option Nat :=
  let unit := (10 : Rat) ^ shift
  let below := (v / unit).floor.toNat
  let lowIn := i.contains (below * unit)
  let highIn := i.contains ((below + 1 : Nat) * unit)
  if lowIn && highIn then some (nearestInt (v / unit)).toNat
  else if lowIn then some below
  else if highIn then some (below + 1)
  else none

/-- Seventeen significant digits always suffice. -/
def maxDigits : Nat := 17

/-- The fewest digits that read back as the positive double `m · 2 ^ e`. -/
def shortest (m : Nat) (e : Int) : Digits :=
  let v := (m : Rat) * (2 : Rat) ^ e
  let i := interval m e
  let top := floorLog10 v
  let tries := (List.range maxDigits).map fun (k : Nat) => top - (k : Int)
  let found := tries.findSome? fun shift => (gridPoint? i v shift).map (Digits.ofScaled · shift)
  found.getD (.ofScaled (v / (10 : Rat) ^ (top - maxDigits)).floor.toNat (top - maxDigits))

/-- Digits are written positionally from `0.0001` up to sixteen places before the point,
and a whole number keeps a `.0`. -/
def layout (d : Digits) : List Char :=
  if -4 ≤ d.exponent ∧ d.exponent < 16 then
    let text := d.positional
    if text.contains '.' then text else text ++ ['.', '0']
  else d.scientific

/-- The written form of a double: the fewest digits that read back. -/
def text (x : Float) : String :=
  match reading x with
  | .undefined => "nan"
  | .infinite n => if n then "-inf" else "inf"
  | .finite n v =>
    let magnitude :=
      if v = 0 then ['0', '.', '0']
      else
        let (m, e) := mantissaExponent x.toBits.toNat
        layout (shortest m e)
    String.ofList ((if n then ['-'] else []) ++ magnitude)

/-- The double nearest to the square root of a rational.  The root is taken with at least
64 bits; half a unit is added when it is not exact, which keeps it on the right side of
every rounding boundary. -/
def nearestSqrt (q : Rat) : Float :=
  if q ≤ 0 then nearest 0
  else
    let shift := 65 - floorLog2 q / 2
    let scaled := q * (4 : Rat) ^ shift
    let root := scaled.floor.toNat.sqrt
    let exact : Rat := if (root * root : Nat) = scaled then root else root + 1 / 2
    nearest (exact * (2 : Rat) ^ (-shift))

/-- How often `y` goes into `x`, rounded once. -/
def floorDiv (x y : Float) : Float := ofReading ((reading x).floorQuotient (reading y))

/-- The length of `(x, y)`, rounded once.  An infinite side wins over an undefined one. -/
def hypot (x y : Float) : Float :=
  match reading x, reading y with
  | .infinite _, _ | _, .infinite _ => ofMagnitude false infinityBits
  | .undefined, _ => x
  | _, .undefined => y
  | .finite _ a, .finite _ b => nearestSqrt (a * a + b * b)

instance : Arithmetic Float where
  ofReading := ofReading
  ofDecimal := ofDecimal
  reading := reading
  text := text
  floorDiv := floorDiv
  hypot := hypot
  sin := Float.sin
  cos := Float.cos
  atan2 := Float.atan2
  pi := ofDecimal 3141592653589793 (-15)

end FeynmanTikz.Double
