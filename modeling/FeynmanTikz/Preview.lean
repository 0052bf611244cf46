/-
A preview of a diagram: what is drawn, in which order.

The preview draws on axes that know patches, lines and text.  `Diagram.preview` lists the
calls it makes: ellipses, then each edge with its markers, then points, then labels, and
last the frame, which leaves a margin around everything drawn.

Design notes.
* The second axis is reversed, since editor space grows downwards.
* Every edge, point, ellipse and label adds to the frame what it occupies: all vertices of
  its polyline, its position, or its extent; markers add nothing.
* A patch is a shape of its own and refuses a colour or a line width that makes no sense.  What
  makes sense is for the axes to say, so it is an operation of `Canvas`.  Lines and text are handed
  to the axes as they are.
-/
import FeynmanTikz.Diagram.Basic
import FeynmanTikz.Stroke.Marker

namespace FeynmanTikz

/-- A call to the axes. -/
inductive DrawCall (R : Type) where
  | ellipse (face edge : String) (center width height lineWidth : Value R)
  | polygon (face edge : String) (vertices : List (Value R))
  | circle (face : String) (center radius : Value R)
  | plot (xs ys : List (Value R)) (color : String) (lineWidth dashes : Value R)
  | text (x y : Value R) (text : String)
  | xlim (first last : Value R)
  | ylim (first last : Value R)
  | equalAspect
  | axisOff

/-- Some calls, and the coordinates they occupy. -/
structure Drawing (R : Type) where
  calls : List (DrawCall R) := []
  xs : List (Value R) := []
  ys : List (Value R) := []

namespace Drawing

variable {R : Type}

def append (a b : Drawing R) : Drawing R := ⟨a.calls ++ b.calls, a.xs ++ b.xs, a.ys ++ b.ys⟩

/-- One drawing after the other. -/
def concat (ds : List (Drawing R)) : Drawing R := ds.foldl append {}

end Drawing

/-- Fill of an ellipse. -/
def ellipseFace : String := "#e5e5e5"

/-- Fill of a point. -/
def pointFace : String := "#000000"

variable {R : Type} [Arithmetic R]

/-- Room around everything drawn. -/
def margin : Value R := realNumber 20

/-- Two hexadecimal digits, or more for a number that needs them. -/
def hexText (n : Int) : String :=
  let ds := hexDigits (if n < 0 then 1 else 2) n.natAbs
  String.ofList ((if n < 0 then ['-'] else []) ++ ds)

/-- A component of a colour, which must be a whole number. -/
def hexComponent (v : Value R) : Except (Fault R) String :=
  match v with
  | .text _ => .error (.refused .unformattable)
  | v => do match ← v.expectNumber with
    | .int n => return hexText n
    | .real _ => .error (.refused .unformattable)

/-- Component number `i` of a colour. -/
def componentOf (components : List (Value R)) (i : Nat) : Except (Fault R) String :=
  match components[i]? with
  | some c => hexComponent c
  | none => .error .outOfBounds

/-- A colour by its first three components. -/
def hexColor (color : Value R) : Except (Fault R) String := do
  let components ← color.expectMembers
  let red ← componentOf components 0
  let green ← componentOf components 1
  let blue ← componentOf components 2
  return "#" ++ red ++ green ++ blue

/-- What patches are made of, as the axes have it. -/
class Canvas (R : Type) [Arithmetic R] where
  /-- The colour of a patch. -/
  patchColor : String → Except (Fault R) String
  /-- The width of the outline of a patch. -/
  patchWidth : Value R → Except (Fault R) (Value R)

/-- The colour of a patch: six hexadecimal digits, or eight, the last two of which tell how
opaque it is and do not show. -/
def digitColor (color : String) : Except (Fault R) String :=
  let digits := color.toList.drop 1
  if (digits.length = 6 ∨ digits.length = 8) ∧ !digits.contains '-' then
    .ok (String.ofList ('#' :: digits.take 6))
  else .error (.refused .unformattable)

/-- The width of the outline of a patch; nothing stands for one point. -/
def pointWidth (v : Value R) : Except (Fault R) (Value R) :=
  match v with
  | .none => .ok (realNumber 1)
  | v => do return .real (← v.cell)

/-- Patches with colours in digits and widths in points. -/
@[reducible]
def Canvas.standard (R : Type) [Arithmetic R] : Canvas R := ⟨digitColor, pointWidth⟩

instance : Canvas Float := .standard Float

variable [Arrays R] [Canvas R]

def Ellipse.drawing (e : Ellipse R) : Except (Fault R) (Drawing R) := do
  let two : Value R := .int 2
  let width ← (↑two * ↑e.rx : Computed R).result
  let height ← (↑two * ↑e.ry : Computed R).result
  let edge ← Canvas.patchColor (← hexColor e.color)
  let lineWidth ← Canvas.patchWidth e.strokeWidth
  let left ← (e.center.x - ↑e.rx).result
  let right ← (e.center.x + ↑e.rx).result
  let top ← (e.center.y - ↑e.ry).result
  let bottom ← (e.center.y + ↑e.ry).result
  return ⟨[.ellipse ellipseFace edge e.center width height lineWidth], [left, right], [top, bottom]⟩

/-- The line from one position to another. -/
def segmentCall (color : String) (lineWidth : Value R) (s : Value R × Value R) :
    Except (Fault R) (DrawCall R) := do
  let xs := [← s.1.x.result, ← s.2.x.result]
  let ys := [← s.1.y.result, ← s.2.y.result]
  return .plot xs ys color lineWidth .none

/-- The calls that draw a marker: a filled triangle with its outline closed, or two
segments. -/
def Marker.calls (color : String) (lineWidth : Value R) :
    Marker R → Except (Fault R) (List (DrawCall R))
  | .arrowhead tip left right => do
    let fill ← Canvas.patchColor color
    return [.polygon fill fill [tip, left, right, tip]]
  | .cross _ first second => do
    return [← segmentCall color lineWidth first, ← segmentCall color lineWidth second]

/-- Coordinate number `i` of all vertices. -/
def column (p : Positions R) (i : Nat) : Except (Fault R) (List (Value R)) := do
  p.expectCoordinate i
  return ((p.nested.items?).getD []).filterMap fun row => (row.items?).bind (·[i]?)

def Edge.drawing (e : Edge R) (strokes : Given R (Strokes R)) : Logged R (Drawing R) := do
  let style ← e.drawn
  let color ← hexColor style.color
  let path ← e.recordPolyline strokes
  let xs ← column path 0
  let ys ← column path 1
  let dashes ← recordDashPattern style.strokeKind
  let markers ← e.recordMarkers strokes
  let calls ← markers.mapM fun m => Logged.ofExcept (m.calls color style.strokeWidth)
  return ⟨.plot xs ys color style.strokeWidth dashes :: calls.flatten, xs, ys⟩

def Point.drawing (p : Point R) : Except (Fault R) (Drawing R) := do
  return ⟨[.circle pointFace p.position p.radius], [← p.position.x.result],
    [← p.position.y.result]⟩

/-- The formula a label shows; without a text there is none. -/
def labelMarkup (text : Value R) : String := if text.isTruthy then "$" ++ text.plain ++ "$" else ""

def Label.drawing (d : Diagram R) (l : Label R) : Logged R (Drawing R) := do
  let p ← d.resolve l
  let (x, y) ← p.expectPair
  return ⟨[.text x y (labelMarkup l.text)], [x], [y]⟩

/-- The smallest and the largest of some numbers, moved apart by the margin. -/
def frame (first : Value R) (rest : List (Value R)) :
    Except (Fault R) (Value R × Value R) := do
  let least ← rest.foldlM Value.min first
  let low ← (↑least - ↑(margin : Value R) : Computed R).result
  let greatest ← rest.foldlM Value.max first
  let high ← (↑greatest + ↑(margin : Value R) : Computed R).result
  return (low, high)

/-- The limits of the axes, if anything is drawn. -/
def Drawing.limits (g : Drawing R) : Except (Fault R) (List (DrawCall R)) :=
  match g.xs, g.ys with
  | x :: xs, y :: ys => do
    let (left, right) ← frame x xs
    let (top, bottom) ← frame y ys
    return [.xlim left right, .ylim bottom top]
  | _, _ => .ok []

namespace Diagram

/-- The calls that draw a diagram. -/
def preview (d : Diagram R) (strokes : Given R (Strokes R)) : Logged R (List (DrawCall R)) := do
  let ellipses ← Logged.ofExcept (d.ellipses.values.mapM fun e => do (← e.asEllipse).drawing)
  let edges ← d.edges.values.mapM fun e => do (← e.asEdge).drawing strokes
  let points ← Logged.ofExcept (d.points.values.mapM fun e => do (← e.asPoint).drawing)
  let labels ← d.labels.values.mapM fun e => do (← e.asLabel).drawing d
  let all := Drawing.concat (ellipses ++ edges ++ points ++ labels)
  let limits ← Logged.ofExcept all.limits
  return all.calls ++ limits ++ [.equalAspect, .axisOff]

end Diagram

end FeynmanTikz
