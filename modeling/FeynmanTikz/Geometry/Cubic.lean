/-
Cubic Bézier curves.

* `Cubic.evaluate` and `Cubic.tangent` evaluate a curve and its derivative at one parameter,
* `Cubic.sample` and `Cubic.sampleTangents` do so at a list of parameters, by weights,
* `Cubic.sampleAt` and `Cubic.sampleTangentsAt` take the parameters from a value.

Both are sums of the control points with Bernstein weights.  The first factors the weights
differently, keeps whole numbers whole where it can and looks at two coordinates.  The second
works on arrays of numbers of type `R`, and on as many coordinates as the control points have.
-/
import FeynmanTikz.Geometry.Positions
import FeynmanTikz.Geometry.Vec

namespace FeynmanTikz

/-- The control points of a cubic. -/
structure Cubic (R : Type) where
  p0 : Value R
  p1 : Value R
  p2 : Value R
  p3 : Value R

namespace Cubic

variable {R : Type} [Arithmetic R]

/-- The sum of the points with four weights. -/
def weighted (w0 w1 w2 w3 : Value R) (p0 p1 p2 p3 : Computed R) : Computed R :=
  ↑w0 * p0 + ↑w1 * p1 + ↑w2 * p2 + ↑w3 * p3

/-- The point at parameter `t`. -/
def evaluate (c : Cubic R) (t : Value R) : Except (Fault R) (Value R) := do
  let u ← (1 - ↑t : Computed R).result
  let uu ← (↑u * ↑u : Computed R).result
  let tt ← (↑t * ↑t : Computed R).result
  let w0 ← (↑uu * ↑u : Computed R).result
  let w1 ← (3 * ↑uu * ↑t : Computed R).result
  let w2 ← (3 * ↑u * ↑tt : Computed R).result
  let w3 ← (↑tt * ↑t : Computed R).result
  Vec.ofFormulas (weighted w0 w1 w2 w3 c.p0.x c.p1.x c.p2.x c.p3.x)
    (weighted w0 w1 w2 w3 c.p0.y c.p1.y c.p2.y c.p3.y)

/-- The sum of three differences with weights. -/
def weightedSteps (w0 w1 w2 : Value R) (p0 p1 p2 p3 : Computed R) : Computed R :=
  ↑w0 * (p1 - p0) + ↑w1 * (p2 - p1) + ↑w2 * (p3 - p2)

/-- The derivative at parameter `t`; it is not scaled and may vanish. -/
def tangent (c : Cubic R) (t : Value R) : Except (Fault R) (Value R) := do
  let u ← (1 - ↑t : Computed R).result
  let w0 ← (3 * ↑u * ↑u : Computed R).result
  let w1 ← (6 * ↑u * ↑t : Computed R).result
  let w2 ← (3 * ↑t * ↑t : Computed R).result
  Vec.ofFormulas (weightedSteps w0 w1 w2 c.p0.x c.p1.x c.p2.x c.p3.x)
    (weightedSteps w0 w1 w2 c.p0.y c.p1.y c.p2.y c.p3.y)

/-- A constant of a weight. -/
def constant (n : Nat) : R := Arithmetic.ofInt n

variable [Arrays R]

/-- The weights of the control points, as functions of the parameter. -/
def weights : List (R → R) :=
  let u (t : R) : R := constant 1 - t
  [fun t => Arrays.cube (u t), fun t => constant 3 * u t * u t * t, fun t => constant 3 * u t * t * t,
    fun t => Arrays.cube t]

/-- The weights of the first, the second and the third difference of control points in the
derivative. -/
def tangentWeights : (R → R) × (R → R) × (R → R) :=
  let u (t : R) : R := constant 1 - t
  (fun t => constant 3 * u t * u t, fun t => constant 6 * u t * t, fun t => constant 3 * t * t)

/-- A row of numbers for each parameter, one number for each function.  Parameters of more than one
dimension have a row of slabs. -/
def table (fs : List (R → R)) (n : Nat) (rest : List Nat) (ts : Block R) : Block R :=
  ⟨n :: fs.length :: rest, (pieces (volume rest) n ts.cells).flatMap fun slab => fs.flatMap slab.map⟩

/-- The control points as one block. -/
def controls (c : Cubic R) : Except (Fault R) (Block R) :=
  Arrays.ofValue (.list [c.p0, c.p1, c.p2, c.p3])

/-- The points at all parameters of a block. -/
def sampleBlock (c : Cubic R) (ts : Block R) : Except (Fault R) (Positions R) := do
  let controls ← c.controls
  match ts.shape with
  | [] => .error .noDimension
  | n :: rest => return .ofBlock (← fitting (Arrays.product? (table weights n rest ts) controls))

/-- The points at all parameters of a list. -/
def sample (c : Cubic R) (ts : List R) : Except (Fault R) (Positions R) :=
  c.sampleBlock ⟨[ts.length], ts⟩

/-- The points at the parameters in a value.  The control points are looked at first. -/
def sampleAt (c : Cubic R) (ts : Value R) : Except (Fault R) (Positions R) := do
  let _ ← c.controls
  c.sampleBlock (← Arrays.ofValue ts)

/-- The sum of three steps with weights that depend on the parameters. -/
def weightedBlocks (n : Nat) (rest : List Nat) (ts d0 d1 d2 : Block R) : Option (Block R) := do
  let (w0, w1, w2) := tangentWeights
  let term (w : R → R) (d : Block R) := Arrays.zip? (· * ·) (table [w] n rest ts) d
  let sum ← Arrays.zip? (· + ·) (← term w0 d0) (← term w1 d1)
  Arrays.zip? (· + ·) sum (← term w2 d2)

/-- The derivatives at all parameters of a block. -/
def sampleTangentsBlock (c : Cubic R) (ts : Block R) : Except (Fault R) (Positions R) := do
  let d0 ← Arrays.difference c.p1 c.p0
  let d1 ← Arrays.difference c.p2 c.p1
  let d2 ← Arrays.difference c.p3 c.p2
  match ts.shape with
  | [] => .error .outOfBounds
  | n :: rest => return .ofBlock (← fitting (weightedBlocks n rest ts d0 d1 d2))

/-- The derivatives at all parameters of a list. -/
def sampleTangents (c : Cubic R) (ts : List R) : Except (Fault R) (Positions R) :=
  c.sampleTangentsBlock ⟨[ts.length], ts⟩

/-- The derivatives at the parameters in a value.  The parameters are looked at first. -/
def sampleTangentsAt (c : Cubic R) (ts : Value R) : Except (Fault R) (Positions R) := do
  c.sampleTangentsBlock (← Arrays.ofValue ts)

end Cubic

end FeynmanTikz
