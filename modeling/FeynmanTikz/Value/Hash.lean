/-
Hashes of values.

A hash is a number of 64 bits made from the content of a value, the same for values that are
equal.  It decides where a member of a set is kept (`Table`), and by that the order in which a
set without an order of its own is shown.

* `Value.hash`: the hash of a value that can be a member of a set,
* `hashOfReading`: numbers are taken modulo a prime, so that whole numbers and fractions of equal
  value agree whatever their type,
* `hashOfText`: texts are mixed in words of eight bytes,
* `hashOfItems`: the hashes of the items of a tuple are mixed in order.
-/
import FeynmanTikz.Value

namespace FeynmanTikz

/-- The bits of a word turned to the left. -/
def turned (x : UInt64) (n : UInt64) : UInt64 := (x <<< n) ||| (x >>> (64 - n))

/-- The word of all ones stands for a failure, so no value has it as its hash. -/
def avoidingMark (replacement : UInt64) (h : UInt64) : UInt64 :=
  if h = 0xffffffffffffffff then replacement else h

/-- What a word of all ones is replaced by, unless something else is said. -/
def beforeMark : UInt64 := 0xfffffffffffffffe

/-! Numbers. -/

/-- The prime numbers are taken modulo. -/
def hashPrime : Nat := Nat.pow 2 61 - 1

/-- The remainder of `b ^ e` by `m`, for an `e` of at most `bits` bits. -/
def powerModulo (m b : Nat) : (bits : Nat) → (e : Nat) → Nat
  | 0, _ => 1 % m
  | bits + 1, e =>
    let half := powerModulo m (b * b % m) bits (e / 2)
    if e % 2 = 1 then b * half % m else half

/-- The hash of an infinity without its sign. -/
def infinityHash : Nat := 314159

def hashOfSigned (negative : Bool) (n : Nat) : UInt64 :=
  avoidingMark beforeMark (if negative then 0 - UInt64.ofNat n else UInt64.ofNat n)

/-- The hash of a number.  A divisor is turned into a factor by the little theorem of Fermat. -/
def hashOfReading : Reading → UInt64
  | .undefined => 0
  | .infinite negative => hashOfSigned negative infinityHash
  | .finite _ q =>
    let inverse := powerModulo hashPrime (q.den % hashPrime) 61 (hashPrime - 2)
    hashOfSigned (decide (q < 0)) (q.num.natAbs * inverse % hashPrime)

/-! Texts. -/

/-- The state of the mixing of a text. -/
structure Mixture where
  a : UInt64
  b : UInt64
  c : UInt64
  d : UInt64

namespace Mixture

def start : Mixture :=
  ⟨0x736f6d6570736575, 0x646f72616e646f6d, 0x6c7967656e657261, 0x7465646279746573⟩

/-- One round of mixing. -/
def round (m : Mixture) : Mixture :=
  let a := m.a + m.b
  let c := m.c + m.d
  let b := turned m.b 13 ^^^ a
  let d := turned m.d 16 ^^^ c
  let a := turned a 32
  let c := c + b
  let a := a + d
  let b := turned b 17 ^^^ c
  let d := turned d 21 ^^^ a
  ⟨a, b, turned c 32, d⟩

/-- Mixes in one word. -/
def add (m : Mixture) (word : UInt64) : Mixture :=
  let mixed := round { m with d := m.d ^^^ word }
  { mixed with a := mixed.a ^^^ word }

/-- The hash that comes out in the end. -/
def result (m : Mixture) : UInt64 :=
  let m := round (round (round { m with c := m.c ^^^ 0xff }))
  (m.a ^^^ m.b) ^^^ (m.c ^^^ m.d)

end Mixture

/-- The lowest `count` bytes of a number, lowest first. -/
def bytesOf : (count : Nat) → Nat → List Nat
  | 0, _ => []
  | count + 1, n => n % 256 :: bytesOf count (n / 256)

/-- Bytes of each character, as few as the largest one needs. -/
def bytesPerCharacter (t : List Char) : Nat :=
  if t.all fun c => c.toNat < 0x100 then 1
  else if t.all fun c => c.toNat < 0x10000 then 2
  else 4

/-- The word made of some bytes, lowest first. -/
def wordOf (bytes : List Nat) : UInt64 := UInt64.ofNat (bytes.foldr (fun b n => b + 256 * n) 0)

/-- Mixes in bytes in words of eight.  What is left goes into a last word with the number of all
bytes on top. -/
def mixBytes (total : Nat) : (words : Nat) → Mixture → List Nat → UInt64
  | 0, m, bytes => (m.add (wordOf bytes ||| (UInt64.ofNat total <<< 56))).result
  | words + 1, m, bytes => mixBytes total words (m.add (wordOf (bytes.take 8))) (bytes.drop 8)

/-- The hash of a text; the empty one has none. -/
def hashOfText (t : List Char) : UInt64 :=
  if t.isEmpty then 0
  else
    let bytes := t.flatMap fun c => bytesOf (bytesPerCharacter t) c.toNat
    avoidingMark beforeMark (mixBytes bytes.length (bytes.length / 8) .start bytes)

/-! Tuples. -/

/-- Mixes in the hash of one more item. -/
def mixItem (state item : UInt64) : UInt64 :=
  turned (state + item * 14029467366897019727) 31 * 11400714785074694791

/-- What the mixing of items starts with. -/
def itemsStart : UInt64 := 2870177450012600261

/-- The hash of a tuple, by the hashes of its items. -/
def hashOfItems (items : List UInt64) : UInt64 :=
  avoidingMark 1546275796 (items.foldl mixItem itemsStart +
    (UInt64.ofNat items.length ^^^ (itemsStart ^^^ 3527539)))

/-! Values. -/

/-- The hash of `Value.none`. -/
def absenceHash : UInt64 := 0xfca86420

namespace Value

variable {R : Type} [Arithmetic R]

mutual

/-- The hash of a value.  What cannot be a member of a set counts by its written form. -/
def hash : Value R → UInt64
  | .none => absenceHash
  | .bool b => hashOfReading (.ofInt (if b then 1 else 0))
  | .number x => hashOfReading x.reading
  | .text t => hashOfText t.toList
  | .tuple items => hashOfItems (hashes items)
  | v => hashOfText v.written.toList

def hashes : List (Value R) → List UInt64
  | [] => []
  | v :: vs => v.hash :: hashes vs

end

end Value

end FeynmanTikz
