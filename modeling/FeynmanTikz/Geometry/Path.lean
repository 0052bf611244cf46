/-
Polylines.

* `Path R`: the vertices of a polyline, in order, each a row of coordinates,
* `Path.segments`: the lengths of its segments,
* `Path.arcLengths`: the length of the polyline up to each vertex,
* `Path.lengthOf`: the length of the polyline that a block describes,
* `Path.pinned`: the polyline with its end vertices replaced,
* `Positions.chord`, `Positions.segments`, `Positions.pinned`: the same for positions that need not
  be rows,
* `evenlySpaced stop n`: `n` numbers from zero to `stop` at equal distances.

Design notes.
* Vertices have two coordinates wherever something is drawn.  Others are only carried along: a
  length is measured in the plane of the first two, and there must be two or three.
-/
import FeynmanTikz.Geometry.Cubic

namespace FeynmanTikz

/-- The vertices of a polyline. -/
abbrev Path (R : Type) := List (List R)

namespace Path

variable {R : Type} [Arithmetic R] [Arrays R]

/-- The length of a step, if it has two coordinates, or three of which the last is left out. -/
def stepLength? : List R → Option R
  | [dx, dy] | [dx, dy, _] => some (Arrays.hypot dx dy)
  | _ => none

/-- The step from one vertex to another. -/
def step (a b : List R) : List R := List.zipWith (· - ·) b a

/-- The steps between neighbours. -/
def steps : Path R → List (List R)
  | a :: b :: rest => step a b :: steps (b :: rest)
  | _ => []

/-- The lengths of the segments. -/
def segments (p : Path R) : Except (Fault R) (List R) :=
  match p.steps.mapM stepLength? with
  | some lengths => .ok lengths
  | none => .error .wrongType

/-- The sums of the beginnings of a list, `from` included. -/
def partialSums (start : R) : List R → List R
  | [] => [start]
  | x :: xs => start :: partialSums (start + x) xs

/-- The sums of the beginnings of a list of lengths; the first one is zero. -/
def arcLengths (lengths : List R) : List R := partialSums (Arithmetic.ofInt 0) lengths

/-- The polyline with its first and last vertex replaced.  Of a single vertex the last
replacement stays; a polyline without vertices has no ends. -/
def pinned (first last : Value R) : Path R → Except (Fault R) (Path R)
  | [] => .error .outOfBounds
  | row :: rest => do
    let first ← Arrays.filling [row.length] first
    let last ← Arrays.filling [row.length] last
    return (first :: rest).dropLast ++ [last]

/-- The lengths of the segments between the vertices of a block.  A block of single numbers is a
polyline of one segment if it has three of them. -/
def segmentsOf (b : Block R) : Except (Fault R) (List R) :=
  match b.shape with
  | [] => .error .wrongType
  | [_] =>
    match steps (b.cells.map fun x => [x]) with
    | [[dx], [dy]] => .ok [Arrays.hypot dx dy]
    | _ => .error .wrongType
  | n :: rest =>
    let width := rest.getLastD 0
    let vertices := pieces (volume rest) n b.cells
    let differences := (steps vertices).flatMap fun s => pieces width (s.length / width) s
    if width = 2 ∨ width = 3 then
      match differences.mapM stepLength? with
      | some lengths => .ok lengths
      | none => .error .wrongType
    else .error .wrongType

/-- The total length of the segments between the vertices of a block.  Fewer than two vertices
have none. -/
def lengthOf (b : Block R) : Except (Fault R) R :=
  match b.shape with
  | 0 :: _ | 1 :: _ => .ok (Arithmetic.ofInt 0)
  | _ => do return Arrays.total (← segmentsOf b)

/-- A block with what stands at its first and its last index replaced. -/
def pinnedBlock (first last : Value R) (b : Block R) : Except (Fault R) (Block R) :=
  match b.shape with
  | [] | 0 :: _ => .error .outOfBounds
  | n :: rest => do
    let first ← Arrays.filling rest first
    let last ← Arrays.filling rest last
    let size := volume rest
    return ⟨b.shape, (first ++ b.cells.drop size).take ((n - 1) * size) ++ last⟩

end Path

namespace Positions

variable {R : Type} [Arithmetic R] [Arrays R]

/-- The straight path between two positions. -/
def chord (a b : Value R) : Except (Fault R) (Positions R) := do
  return ofBlock (← Arrays.ofValue (.list [a, b]))

/-- The lengths of the segments between neighbours. -/
def segments : Positions R → Except (Fault R) (List R)
  | rows width rs => if width = 2 ∨ width = 3 then Path.segments rs else .error .wrongType
  | block b => Path.segmentsOf b

/-- The positions with the first and the last one replaced. -/
def pinned (first last : Value R) : Positions R → Except (Fault R) (Positions R)
  | rows width rs => do return rows width (← Path.pinned first last rs)
  | block b => do return block (← Path.pinnedBlock first last b)

/-- Makes sure that every position has a coordinate of some number. -/
def expectCoordinate (i : Nat) (p : Positions R) : Except (Fault R) Unit :=
  match p.toBlock.shape with
  | _ :: n :: _ => if i < n then .ok () else .error .outOfBounds
  | _ => .error .outOfBounds

end Positions

variable {R : Type} [Arithmetic R]

/-- The multiples of `stop / steps` from zero on, ending with `stop` itself. -/
def evenSteps (stop : R) (steps : Nat) : List R :=
  let step := stop / Arithmetic.ofInt steps
  (List.range steps).map (fun (i : Nat) => Arithmetic.ofInt i * step) ++ [stop]

/-- More samples than could be counted in 60 bits are not even tried. -/
def maxSamples : Int := 1152921504606846975

/-- `count` numbers from zero to `stop` at equal distances; one number is zero itself. -/
def evenlySpaced (stop : R) (count : Int) : Except (Fault R) (List R) :=
  if count < 0 then .error (.refused .negativeCount)
  else if maxSamples < count then .error (.refused .tooManySamples)
  else match count.toNat with
    | 0 => .ok []
    | 1 => .ok [Arithmetic.ofInt 0 * stop]
    | n + 2 => .ok (evenSteps stop (n + 1))

end FeynmanTikz
