/-
Positions and directions in the plane.

The coordinates of a position are what is found under the indices `0` and `1`.  Sums, differences, multiples,
the quarter turn and the point between two others are pairs of formulas over these.

* `Vec.add`, `sub`, `scale`, `dividedBy`, `rotate90`, `norm`,
* `Vec.normalize`: the direction scaled to unit length, or a fallback when it is too short to
  be one,
* `Vec.lerp a b t`: the point at parameter `t` on the chord, `(1 - t) a + t b`.

Design notes.
* Coordinates are scalars, so a position of whole numbers stays one until it is computed with.
* The chord is evaluated in the form that gives back both end points exactly.
-/
import FeynmanTikz.Value.Computed

namespace FeynmanTikz.Vec

variable {R : Type} [Arithmetic R]

/-- The position with the given coordinates. -/
def ofFormulas (x y : Computed R) : Except (Fault R) (Value R) := do
  let x ← x.result
  let y ← y.result
  return .tuple [x, y]

def add (a b : Value R) : Except (Fault R) (Value R) := ofFormulas (a.x + b.x) (a.y + b.y)

def sub (a b : Value R) : Except (Fault R) (Value R) := ofFormulas (a.x - b.x) (a.y - b.y)

def scale (v k : Value R) : Except (Fault R) (Value R) := ofFormulas (v.x * ↑k) (v.y * ↑k)

/-- The direction divided by a number. -/
def dividedBy (v k : Value R) : Except (Fault R) (Value R) := ofFormulas (v.x / ↑k) (v.y / ↑k)

/-- The direction turned by a right angle. -/
def rotate90 (v : Value R) : Except (Fault R) (Value R) := ofFormulas (-v.y) v.x

/-- The length. -/
def norm (v : Value R) : Except (Fault R) R := do
  let x ← v.x.result
  let y ← v.y.result
  return Arithmetic.hypot (← x.expectReal) (← y.expectReal)

/-- The unit vector along the horizontal axis. -/
def unitX : Value R := .tuple [.real (Arithmetic.ofInt 1), .real (Arithmetic.ofInt 0)]

/-- Lengths up to this one have no direction. -/
def tinyLength : R := Arithmetic.ofDecimal 1 (-12)

/-- The direction scaled to unit length, or `fallback` if its length is at most `eps`. -/
def normalize (v : Value R) (fallback : Value R := unitX) (eps : Value R := .real tinyLength) :
    Except (Fault R) (Value R) := do
  let length : Scalar R := .real (← norm v)
  if length.le (← eps.expectNumber) then return fallback
  dividedBy v (.number length)

/-- The point at parameter `t` on the chord from `a` to `b`. -/
def lerp (a b t : Value R) : Except (Fault R) (Value R) := do
  let u ← (1 - ↑t : Computed R).result
  ofFormulas (↑u * a.x + ↑t * b.x) (↑u * a.y + ↑t * b.y)

end FeynmanTikz.Vec
