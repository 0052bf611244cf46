/-
Where an edge runs: points, directions and the default bend of a curve.

Every edge is a cubic: a straight edge is its chord, a curve uses its one control point
twice.  Markers, label anchors and decorated strokes all ask the functions here.

* `Edge.pointAt`, `Edge.tangentAt`, `Edge.angleAt` at a parameter from zero to one,
* `anchorParameter` names three parameters,
* `defaultControl` bends a new curve off its chord,
* `pointOn`, `tangentOn`, `angleOn` ask the same of what should be an edge.

Design notes.
* Every function here has a recorded form (`Edge.recordPointAt` for `Edge.pointAt`) that
  notes the call and its result in the journal.  Functions call the recorded forms of each
  other, so a journal shows the whole tree of calls.
* A straight edge never looks at its control point, a curve without one is straight.
* What is no edge fails where it is first asked for a field, and a journal shows how far it came.
-/
import FeynmanTikz.Diagram.Element
import FeynmanTikz.Geometry.Path
import FeynmanTikz.Journal

namespace FeynmanTikz

variable {R : Type} [Arithmetic R]

/-- A call with all arguments by position. -/
def recorded {α : Type} (name : String) (arguments : List (Value R)) (shown : α → Value R)
    (body : Logged R α) : Logged R α :=
  .around ⟨name, arguments, []⟩ shown body

/-- Whether an edge is bent. -/
def Edge.isCurve (e : Edge R) : Bool := e.kind.isWord "curve" && e.control.isSome

def Edge.recordIsCurve (e : Edge R) : Logged R Bool :=
  recorded "_is_curve" [e.value] .bool (pure e.isCurve)

/-- The control points of an edge; its own one counts twice. -/
def Edge.cubic (e : Edge R) : Cubic R := ⟨e.start, e.control, e.control, e.finish⟩

def Cubic.value (c : Cubic R) : Value R := .tuple [c.p0, c.p1, c.p2, c.p3]

def Edge.recordCubic (e : Edge R) : Logged R (Cubic R) :=
  recorded "_cubic" [e.value] Cubic.value (pure e.cubic)

/-- The parameters of the start, the middle and the end of an edge. -/
def parameterStart : Value R := realNumber 0

def parameterMid : Value R := .number (.real (Arithmetic.ofDecimal 5 (-1)))

def parameterEnd : Value R := realNumber 1

/-- The parameter of an anchor. -/
def anchorParameter (anchor : Value R) : Except (Fault R) (Value R) :=
  match anchor with
  | .text "start" => .ok parameterStart
  | .text "mid" => .ok parameterMid
  | .text "end" => .ok parameterEnd
  | v => if v.isFixed then .error (.refused (.unknownAnchor v)) else .error .wrongType

def recordAnchorParameter (anchor : Value R) : Logged R (Value R) :=
  recorded "anchor_t" [anchor] (fun t => t) (anchorParameter anchor)

/-- The point of an edge at parameter `t`. -/
def Edge.pointAt (e : Edge R) (t : Value R) : Logged R (Value R) := do
  if ← e.recordIsCurve then
    let c ← e.recordCubic
    c.evaluate t
  else
    Vec.lerp e.start e.finish t

def Edge.recordPointAt (e : Edge R) (t : Value R) : Logged R (Value R) :=
  recorded "point_at" [e.value, t] (fun p => p) (e.pointAt t)

/-- The unit tangent at parameter `t`.  Where the derivative of a curve vanishes, the
direction of the chord stands in for it. -/
def Edge.tangentAt (e : Edge R) (t : Value R) : Logged R (Value R) := do
  let along ← Vec.sub e.finish e.start
  let chord ← Vec.normalize along
  if ← e.recordIsCurve then
    let c ← e.recordCubic
    let d ← c.tangent t
    Vec.normalize d chord
  else
    return chord

def Edge.recordTangentAt (e : Edge R) (t : Value R) : Logged R (Value R) :=
  recorded "tangent_at" [e.value, t] (fun d => d) (e.tangentAt t)

/-- The angle of the tangent at parameter `t`. -/
def Edge.angleAt (e : Edge R) (t : Value R) : Logged R R := do
  let d ← e.recordTangentAt t
  let x ← d.x.result
  let y ← d.y.result
  let y ← y.expectReal
  let x ← x.expectReal
  return Arithmetic.atan2 y x

def Edge.recordAngleAt (e : Edge R) (t : Value R) : Logged R R :=
  recorded "angle_at" [e.value, t] .real (e.angleAt t)

/-- Asks whether something is bent that is no edge. -/
def failAsCurve {α : Type} (v : Value R) : Logged R α := do
  let _ ← recorded "_is_curve" [v] .bool (Logged.fail .missingField)
  Logged.fail .missingField

/-- Asks for the tangent of something that is no edge. -/
def failAsDirection {α : Type} (v t : Value R) : Logged R α := do
  let _ ← recorded "tangent_at" [v, t] (fun d => d) (Logged.fail .missingField)
  Logged.fail .missingField

/-- The edge a value describes; nothing for anything else. -/
def edge? (v : Value R) : Option (Edge R) := (Edge.ofValue v).toOption

/-- The point at parameter `t` of what should be an edge. -/
def pointOn (v t : Value R) : Logged R (Value R) :=
  match edge? v with
  | some e => e.pointAt t
  | none => failAsCurve v

def tangentOn (v t : Value R) : Logged R (Value R) :=
  match edge? v with
  | some e => e.tangentAt t
  | none => Logged.fail .missingField

def angleOn (v t : Value R) : Logged R R :=
  match edge? v with
  | some e => e.angleAt t
  | none => failAsDirection v t

/-- The point at parameter `t` of an element. -/
def Element.pointAt (e : Element R) (t : Value R) : Logged R (Value R) :=
  match e with
  | .edge e => e.pointAt t
  | e => failAsCurve e.value

def Element.recordPointAt (e : Element R) (t : Value R) : Logged R (Value R) :=
  recorded "point_at" [e.value, t] (fun p => p) (e.pointAt t)

/-- The control point of a curve for which none is given: off the middle of the chord, at a
fifth of its length, but at least 20 and at most 60 units away. -/
def defaultControl (start finish : Value R) : Except (Fault R) (Value R) := do
  let d ← Vec.sub finish start
  let norm ← Vec.norm d
  let length : Value R := if (Arithmetic.reading norm).isZero then realNumber 1 else .real norm
  let n ← Vec.ofFormulas (-d.y / ↑length) (d.x / ↑length)
  let fifth : Value R := .number (.real (Arithmetic.ofDecimal 2 (-1)))
  let wanted ← (↑length * ↑fifth : Computed R).result
  let offset ← Value.min (realNumber 60) (← Value.max (realNumber 20) wanted)
  let mx ← ((start.x + finish.x) / 2 : Computed R).result
  let my ← ((start.y + finish.y) / 2 : Computed R).result
  Vec.ofFormulas (↑mx + n.x * ↑offset) (↑my + n.y * ↑offset)

def recordDefaultControl (start finish : Value R) : Logged R (Value R) :=
  recorded "default_curve_control" [start, finish] (fun p => p) (defaultControl start finish)

end FeynmanTikz
