/-
Arithmetic on blocks of any number of dimensions.

* `joinedShape?`: the shape two blocks are stretched to before they meet cell by cell,
* `stretch`: the parts of a block repeated along the dimensions that are stretched,
* `Block.zip?`, `Block.stretched?`: cell by cell, and one block stretched to a shape,
* `Block.product?`: sums of products along a dimension that two blocks share,
* `Block.nested`: the cells as nested lists.

Main fact: `joinedShape?_self`, so blocks of one shape meet as they are.

Design notes.
* A dimension of size one is stretched to any size, and so is one that is missing in front.
* A product of blocks is one of matrices for each index of the dimensions in front of the last two.
-/
import FeynmanTikz.Value.Block

namespace FeynmanTikz

/-- The number of cells of a shape. -/
def volume : List Nat → Nat
  | [] => 1
  | n :: rest => n * volume rest

/-- The sizes two shapes are stretched to; the innermost sizes come first. -/
def joinedSizes? : List Nat → List Nat → Option (List Nat)
  | [], ns => some ns
  | ms, [] => some ms
  | m :: ms, n :: ns => do
    let rest ← joinedSizes? ms ns
    if m = n ∨ n = 1 then some (m :: rest) else if m = 1 then some (n :: rest) else none

theorem joinedSizes?_self (ns : List Nat) : joinedSizes? ns ns = some ns := by
  induction ns with
  | nil => rfl
  | cons n ns ih => simp [joinedSizes?, ih]

/-- The shape two shapes are stretched to, if they fit. -/
def joinedShape? (a b : List Nat) : Option (List Nat) :=
  (joinedSizes? a.reverse b.reverse).map List.reverse

theorem joinedShape?_self (shape : List Nat) : joinedShape? shape shape = some shape := by
  simp [joinedShape?, joinedSizes?_self]

/-- Some parts, with their size and the size they are stretched to along each dimension. -/
def stretch {α : Type} : List (Nat × Nat) → List α → List α
  | [], parts => parts
  | (size, target) :: rest, parts =>
    let slices := (pieces (volume (rest.map Prod.fst)) size parts).map (stretch rest)
    if size = target then slices.flatten else (List.replicate target slices.flatten).flatten

/-- Parts of some shape stretched to another one. -/
def stretchedTo {α : Type} (target shape : List Nat) (parts : List α) : List α :=
  stretch ((List.replicate (target.length - shape.length) 1 ++ shape).zip target) parts

namespace Block

variable {R : Type} [Arithmetic R]

/-- Two blocks cell by cell, if their shapes fit. -/
def zip? (f : R → R → R) (a b : Block R) : Option (Block R) := do
  let shape ← joinedShape? a.shape b.shape
  return ⟨shape, List.zipWith f (stretchedTo shape a.shape a.cells) (stretchedTo shape b.shape b.cells)⟩

/-- A block stretched to a shape, if it fits into it. -/
def stretched? (shape : List Nat) (b : Block R) : Option (Block R) :=
  if joinedShape? b.shape shape = some shape then some ⟨shape, stretchedTo shape b.shape b.cells⟩
  else none

/-- The sum of the products of two rows, from the left. -/
def rowProduct (xs ys : List R) : R :=
  match List.zipWith (· * ·) xs ys with
  | [] => Arithmetic.ofInt 0
  | x :: rest => rest.foldl (· + ·) x

/-- The columns of a matrix with rows of some width. -/
def columns (width : Nat) (rows : List (List R)) : List (List R) :=
  (List.range width).map fun j => rows.map (·.getD j (Arithmetic.ofInt 0))

/-- The product of two matrices. -/
def matrixProduct (n k m : Nat) (xs ys : List R) : List R :=
  (pieces k n xs).flatMap fun row => (columns m (pieces m k ys)).map (rowProduct row)

/-- Sums of products along the last dimension of the first block and the last but one of the
second, or its only one.  The dimensions in front of the last two are stretched to fit. -/
def product? (a b : Block R) : Option (Block R) :=
  match a.shape.reverse, b.shape.reverse with
  | k :: front, [m] =>
    if k = m then
      some ⟨front.reverse, (pieces k (volume front) a.cells).map (rowProduct · b.cells)⟩
    else none
  | k :: n :: front, m :: k' :: front' =>
    if k = k' then do
      let shape ← joinedShape? front.reverse front'.reverse
      let lefts := stretchedTo shape front.reverse (pieces (n * k) (volume front) a.cells)
      let rights := stretchedTo shape front'.reverse (pieces (k * m) (volume front') b.cells)
      return ⟨shape ++ [n, m], (List.zipWith (matrixProduct n k m) lefts rights).flatten⟩
    else none
  | _, _ => none

/-- Cells of a shape as nested lists. -/
def nestedCells : List Nat → List R → Value R
  | [], cells => .real (cells.headD (Arithmetic.ofInt 0))
  | n :: rest, cells => .list ((pieces (volume rest) n cells).map (nestedCells rest))

/-- The cells of a block as nested lists. -/
def nested (b : Block R) : Value R := nestedCells b.shape b.cells

end Block

end FeynmanTikz
