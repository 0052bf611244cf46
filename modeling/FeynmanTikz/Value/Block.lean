/-
Blocks: rectangular arrays of numbers, read from nested sequences.

* `Value.layout?`: the shape of nested sequences and the values in them, if they are
  rectangular,
* `Value.toGrid`: the array nested sequences describe, with cells of the narrowest kind,
* `Block.ofValue`: a block of numbers of type `R`; what is missing is an undefined number and
  texts are read as numerals,
* `Block.ofNumbers`: a block of numbers only, from a layout,
* `Block.rows?`: the rows of a block of two dimensions.

Design notes.
* The shape is settled before any cell is looked at, so of two faults a wrong shape is the one
  that is reported.
* Cells stand in one list, the last dimension running fastest.
-/
import FeynmanTikz.Number.Numeral
import FeynmanTikz.Value.Access

namespace FeynmanTikz

namespace Value

variable {R : Type}

/-- Parts of one shape, one after the other.  Without parts there is one dimension, of
length zero. -/
def stacked : List (Option (List Nat × List (Value R))) → Option (List Nat × List (Value R))
  | [] => some ([0], [])
  | parts => do
    let parts ← parts.mapM id
    let shape ← parts.head?.map Prod.fst
    if parts.all (·.1 == shape) then some (parts.length :: shape, parts.flatMap Prod.snd)
    else Option.none

mutual

/-- The shape of nested sequences and the values at their ends, if all parts of a sequence have
one shape.  Anything but a sequence is a single value without dimensions. -/
def layout? : Value R → Option (List Nat × List (Value R))
  | .list items | .tuple items => stacked (layouts? items)
  | .grid g => some (g.shape, g.cells.map .number)
  | v => some ([], [v])

def layouts? : List (Value R) → List (Option (List Nat × List (Value R)))
  | [] => []
  | v :: vs => v.layout? :: layouts? vs

end

def expectLayout (v : Value R) : Except (Fault R) (List Nat × List (Value R)) :=
  match v.layout? with
  | some l => .ok l
  | Option.none => .error (.refused .wrongCount)

variable [Arithmetic R]

/-- The number a value is read as in a block. -/
def cell : Value R → Except (Fault R) R
  | .none => .ok (Arithmetic.ofReading .undefined)
  | .text t =>
    match Numeral.ofText? t.toList with
    | some n => .ok n.toReal
    | Option.none => .error (.refused .notNumeral)
  | v => v.expectReal

/-- Whole numbers of 64 bits, with or without a sign. -/
def isMachineWhole (n : Int) : Bool := -9223372036854775808 ≤ n && n < 18446744073709551616

/-- Whole numbers of 64 bits that need all of them for the magnitude. -/
def needsSignBit (n : Int) : Bool := 9223372036854775808 ≤ n && n < 18446744073709551616

/-- The kind of array some values make: the narrowest one that holds all of them. -/
def cellKind (cells : List (Value R)) : CellKind :=
  let is (p : Int → Bool) : Value R → Bool
    | .number (.int n) => p n
    | _ => false
  let isReal : Value R → Bool
    | .number (.real _) => true
    | _ => false
  let isBool : Value R → Bool
    | .bool _ => true
    | _ => false
  if cells.any (is fun n => !isMachineWhole n) then .mixed
  else if cells.isEmpty || cells.any isReal then .float
  else if cells.all isBool then .bool
  else if cells.any (is needsSignBit) then
    if cells.any (is fun n => !needsSignBit n) then .float else .natural
  else .int

/-- A value as a cell of an array of some kind. -/
def gridCell (kind : CellKind) (v : Value R) : Except (Fault R) (Scalar R) := do
  let x ← v.expectNumber
  if kind = .float then return .real (← liftArithmetic x.toReal) else return x

/-- The array nested sequences describe. -/
def toGrid (v : Value R) : Except (Fault R) (Value R) := do
  let (shape, cells) ← v.expectLayout
  let kind := cellKind cells
  let truths := cells.map fun v => match v with | .bool _ => true | _ => false
  return .grid { kind, shape, cells := ← cells.mapM (gridCell kind), truths }

/-- The array of a list of points, which may be empty. -/
def toPointGrid : Value R → Except (Fault R) (Value R)
  | .list [] => .ok (.grid { kind := .float, shape := [0, 2], cells := [] })
  | v => do
    let (shape, cells) ← v.expectLayout
    return .grid { kind := .float, shape, cells := ← cells.mapM (gridCell .float) }

/-- A number that can stand in a block of numbers as it is. -/
def numericCell (v : Value R) : Except (Fault R) R :=
  match v.asNumber? with
  | some (.int n) => if isMachineWhole n then .ok (Arithmetic.ofInt n) else .error .notNumeric
  | some (.real x) => .ok x
  | Option.none => .error .notNumeric

end Value

/-- A rectangular array of numbers; `shape` has one entry per dimension. -/
structure Block (R : Type) where
  shape : List Nat
  cells : List R

namespace Block

variable {R : Type}

/-- The rows of a block of two dimensions, and their width. -/
def rows? (b : Block R) : Option (Nat × List (List R)) :=
  match b.shape with
  | [n, width] => some (width, pieces width n b.cells)
  | _ => none

/-- The cells of a block that is a single row, or a single cell. -/
def row? (b : Block R) : Option (List R) :=
  match b.shape with
  | [] | [_] => some b.cells
  | _ => none

variable [Arithmetic R]

/-- The block a value describes. -/
def ofValue (v : Value R) : Except (Fault R) (Block R) := do
  let (shape, cells) ← v.expectLayout
  return ⟨shape, ← cells.mapM Value.cell⟩

/-- The block of some numbers in a layout. -/
def ofNumbers (layout : List Nat × List (Value R)) : Except (Fault R) (Block R) := do
  return ⟨layout.1, ← layout.2.mapM Value.numericCell⟩

end Block

end FeynmanTikz
