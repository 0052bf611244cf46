/-
Markers: arrowheads and crosses on an edge.

* `arrowhead tip angle …`: a filled triangle with its tip on the edge,
* `crossTicks center angle …`: two short strokes across the edge at 45 degrees to it,
* `Edge.markers`: the shapes an arrow style asks for.

An edge has at most two arrowheads or one cross, never both.
-/
import FeynmanTikz.Stroke.Polyline

namespace FeynmanTikz

/-- A shape on an edge. -/
inductive Marker (R : Type) where
  | arrowhead (tip left right : Value R)
  | cross (center : Value R) (first second : Value R × Value R)

variable {R : Type} [Arithmetic R]

namespace Marker

omit [Arithmetic R]

/-- A segment as a pair of positions. -/
def segmentValue (s : Value R × Value R) : Value R := .tuple [s.1, s.2]

def value : Marker R → Value R
  | arrowhead tip left right =>
    .record "Arrowhead" [("tip", tip), ("left", left), ("right", right)]
  | cross center first second =>
    .record "CrossTicks"
      [("center", center), ("first", segmentValue first), ("second", segmentValue second)]

end Marker

/-- A trigonometric function has no value at infinity. -/
def trigonometric (f : R → R) (v : Value R) : Except (Fault R) (Value R) := do
  let x ← v.expectReal
  match Arithmetic.reading x with
  | .infinite _ => .error (.arithmetic .outsideDomain)
  | _ => return .real (f x)

def sine (v : Value R) : Computed R := trigonometric Arithmetic.sin v

def cosine (v : Value R) : Computed R := trigonometric Arithmetic.cos v

/-- The circle number divided by a whole number. -/
def piOver (n : Int) : Computed R := Computed.of (.real Arithmetic.pi) / Computed.of (.int n)

/-- The position at the given distance from `(x, y)` along `angle`. -/
def along (x y angle distance : Value R) : Except (Fault R) (Value R) :=
  Vec.ofFormulas (Computed.of x + cosine angle * Computed.of distance)
    (Computed.of y + sine angle * Computed.of distance)

/-- A triangle pointing along `angle`, with its tip at `tip`.  Its base lies `setback` sizes
behind the tip and reaches `halfWidth` sizes to either side. -/
def arrowhead (tip angle size setback halfWidth : Value R) : Except (Fault R) (Marker R) := do
  let baseX ← (tip.x - cosine angle * ↑size * ↑setback).result
  let baseY ← (tip.y - sine angle * ↑size * ↑setback).result
  let w ← (↑size * ↑halfWidth : Computed R).result
  let left ← along baseX baseY (← (Computed.of angle + piOver 2).result) w
  let right ← along baseX baseY (← (Computed.of angle - piOver 2).result) w
  return .arrowhead tip left right

/-- The segment of the given half length through `center` along `angle`. -/
def tick (center angle halfLength : Value R) : Except (Fault R) (Value R × Value R) := do
  let d ← Vec.ofFormulas (cosine angle * ↑halfLength) (sine angle * ↑halfLength)
  return (← Vec.sub center d, ← Vec.add center d)

/-- Two ticks at 45 degrees to either side of `angle`. -/
def crossTicks (center angle halfLength : Value R) : Except (Fault R) (Marker R) := do
  let firstAngle ← (Computed.of angle + piOver 4).result
  let first ← tick center firstAngle halfLength
  let secondAngle ← (Computed.of angle - piOver 4).result
  let second ← tick center secondAngle halfLength
  return .cross center first second

/-- An arrowhead on the edge at parameter `t`, pointing along the edge or against it. -/
def Edge.head (e : Edge R) (s : Given R (Strokes R)) (t : Value R) (reversed : Bool) :
    Logged R (Marker R) := do
  let direction ← e.recordAngleAt t
  let turn : R := if reversed then Arithmetic.pi else Arithmetic.ofInt 0
  let angle : Value R := .real (direction + turn)
  let tip ← e.recordPointAt t
  let s ← s.settings
  .around
    ⟨"arrowhead", [tip, angle, s.arrowSize],
     [("setback", s.arrowSetback), ("half_width", s.arrowHalfWidth)]⟩
    Marker.value (arrowhead tip angle s.arrowSize s.arrowSetback s.arrowHalfWidth)

/-- The shapes an arrow style asks for. -/
def Edge.markers (e : Edge R) (s : Given R (Strokes R)) : Logged R (List (Marker R)) := do
  let style ← e.drawn
  match style.arrow with
  | .text "none" => return []
  | .text "forward" => return [← e.head s parameterEnd false]
  | .text "backward" => return [← e.head s parameterStart true]
  | .text "both" =>
    let forward ← e.head s parameterEnd false
    let backward ← e.head s parameterStart true
    return [forward, backward]
  | .text "mid-forward" => return [← e.head s parameterMid false]
  | .text "mid-backward" => return [← e.head s parameterMid true]
  | .text "mid-cross" =>
    let center ← e.recordPointAt parameterMid
    let angle ← e.recordAngleAt parameterMid
    let s ← s.settings
    let cross ← recorded "cross_ticks" [center, .real angle, s.crossHalfLength] Marker.value
      (crossTicks center (.real angle) s.crossHalfLength)
    return [cross]
  | other => Logged.fail (.refused (.unknownArrow other))

def markersValue (ms : List (Marker R)) : Value R := .list (ms.map Marker.value)

def Edge.recordMarkers (e : Edge R) (s : Given R (Strokes R)) : Logged R (List (Marker R)) :=
  recorded "markers_for_edge" [e.value, s.value] markersValue (e.markers s)

/-- The markers of what should be an edge. -/
def markersOn (v : Value R) (s : Given R (Strokes R)) : Logged R (List (Marker R)) :=
  match edge? v with
  | some e => e.markers s
  | none => Logged.fail .missingField

def recordMarkersOn (v : Value R) (s : Given R (Strokes R)) : Logged R (List (Marker R)) :=
  recorded "markers_for_edge" [v, s.value] markersValue (markersOn v s)

end FeynmanTikz
