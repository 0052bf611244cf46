/-
Many positions at once.

`Positions R` is what is computed for a list of parameters: a row of coordinates for each of them.
Control points that are no rows, such as single numbers, give an array with fewer or more
dimensions, which is carried along as a block.

* `Positions.ofBlock` and `Positions.toBlock` go back and forth between the two views,
* `Positions.grid` shows positions as an array, `Positions.nested` as nested lists.

Design notes.
* An array of two dimensions is always taken for rows.
-/
import FeynmanTikz.Value.Arrays

namespace FeynmanTikz

/-- Rows of one width, or an array with another number of dimensions than two. -/
inductive Positions (R : Type) where
  | rows (width : Nat) (rows : List (List R))
  | block (b : Block R)

namespace Positions

variable {R : Type}

def ofBlock (b : Block R) : Positions R :=
  match b.rows? with
  | some (width, rs) => .rows width rs
  | none => .block b

def toBlock : Positions R → Block R
  | rows width rs => ⟨[rs.length, width], rs.flatten⟩
  | block b => b

/-- The rows of positions that are rows of two coordinates. -/
def pairs? : Positions R → Option (List (R × R))
  | rows _ rs => rs.mapM fun
    | [x, y] => some (x, y)
    | _ => none
  | block _ => none

/-- Positions as an array. -/
def grid (p : Positions R) : Value R :=
  let b := p.toBlock
  .grid { kind := .float, shape := b.shape, cells := b.cells.map .real }

variable [Arithmetic R]

/-- Positions as nested lists. -/
def nested (p : Positions R) : Value R :=
  match p with
  | rows _ rs => .list (rs.map fun row => .list (row.map .real))
  | block b => b.nested

end Positions

end FeynmanTikz
