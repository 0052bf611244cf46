/-
The elements of a diagram.

A diagram is made of points (vertices), edges, ellipses (blobs) and labels.  Positions are
in editor space: the origin is at the top left and the second coordinate grows downwards.

* `Point`, `Edge`, `Ellipse`, `Label` with `Style` and `Binding`,
* `Element`: an element of any kind, with `asPoint` and its companions where one kind is needed,
* `Point.value` and its companions show an element as a record, `Point.ofValue` and its
  companions read one.

Design notes.
* Elements come from outside: a script, an editor, a file.  A field holds whatever it has been
  given, and the type of an element says nothing about validity.  Only a check tells, and every
  mutation makes one.
* Fields that are not given have the standard value, or nothing if there is none.
-/
import FeynmanTikz.Value.Access

namespace FeynmanTikz

/-- How an edge is drawn. -/
structure Style (R : Type) where
  strokeKind : Value R
  color : Value R
  strokeWidth : Value R
  arrow : Value R

structure Point (R : Type) where
  id : Value R
  position : Value R
  radius : Value R

/-- A straight edge, or a curve bent by one control point. -/
structure Edge (R : Type) where
  id : Value R
  kind : Value R
  start : Value R
  finish : Value R
  control : Value R
  style : Value R

structure Ellipse (R : Type) where
  id : Value R
  center : Value R
  rx : Value R
  ry : Value R
  color : Value R
  strokeWidth : Value R

/-- Ties a label to an anchor of an edge, at an offset from it. -/
structure Binding (R : Type) where
  target : Value R
  anchor : Value R
  offset : Value R

/-- A label with math markup.  Its position is the last one resolved; while the label is
bound, the anchor of its edge and the offset decide. -/
structure Label (R : Type) where
  id : Value R
  position : Value R
  text : Value R
  binding : Value R

variable {R : Type} [Arithmetic R]

/-- The colour with three components. -/
def rgb (r g b : Int) : Value R := .tuple [.int r, .int g, .int b]

def black : Value R := rgb 0 0 0

/-- The number `n.0`. -/
def realNumber (n : Nat) : Value R := .number (.real (Arithmetic.ofInt n))

/-- The width of a stroke for which none is given. -/
def standardStrokeWidth : Value R := realNumber 2

namespace Style

def fields : List (Field R (Style R)) :=
  [⟨"stroke_kind", (·.strokeKind), fun v s => { s with strokeKind := v }⟩,
   ⟨"color", (·.color), fun v s => { s with color := v }⟩,
   ⟨"stroke_width", (·.strokeWidth), fun v s => { s with strokeWidth := v }⟩,
   ⟨"arrow", (·.arrow), fun v s => { s with arrow := v }⟩]

def standard : Style R := ⟨.text "solid", black, standardStrokeWidth, .text "none"⟩

def value (s : Style R) : Value R := recordOf "EdgeStyle" fields s

def ofValue (v : Value R) : Except (Fault R) (Style R) := ofRecord "EdgeStyle" fields standard v

end Style

namespace Point

def fields : List (Field R (Point R)) :=
  [⟨"id", (·.id), fun v s => { s with id := v }⟩,
   ⟨"position", (·.position), fun v s => { s with position := v }⟩,
   ⟨"radius", (·.radius), fun v s => { s with radius := v }⟩]

/-- The radius of a point for which none is given. -/
def standardRadius : Value R := realNumber 3

def standard : Point R := ⟨.none, .none, standardRadius⟩

def value (p : Point R) : Value R := recordOf "Point" fields p

def ofValue (v : Value R) : Except (Fault R) (Point R) := ofRecord "Point" fields standard v

end Point

namespace Edge

def fields : List (Field R (Edge R)) :=
  [⟨"id", (·.id), fun v s => { s with id := v }⟩,
   ⟨"kind", (·.kind), fun v s => { s with kind := v }⟩,
   ⟨"start", (·.start), fun v s => { s with start := v }⟩,
   ⟨"end", (·.finish), fun v s => { s with finish := v }⟩,
   ⟨"control", (·.control), fun v s => { s with control := v }⟩,
   ⟨"style", (·.style), fun v s => { s with style := v }⟩]

def standard : Edge R := ⟨.none, .none, .none, .none, .none, Style.standard.value⟩

def value (e : Edge R) : Value R := recordOf "Edge" fields e

def ofValue (v : Value R) : Except (Fault R) (Edge R) := ofRecord "Edge" fields standard v

/-- How the edge is drawn. -/
def drawn (e : Edge R) : Except (Fault R) (Style R) := Style.ofValue e.style

end Edge

namespace Ellipse

def fields : List (Field R (Ellipse R)) :=
  [⟨"id", (·.id), fun v s => { s with id := v }⟩,
   ⟨"center", (·.center), fun v s => { s with center := v }⟩,
   ⟨"rx", (·.rx), fun v s => { s with rx := v }⟩,
   ⟨"ry", (·.ry), fun v s => { s with ry := v }⟩,
   ⟨"color", (·.color), fun v s => { s with color := v }⟩,
   ⟨"stroke_width", (·.strokeWidth), fun v s => { s with strokeWidth := v }⟩]

def standard : Ellipse R := ⟨.none, .none, .none, .none, black, standardStrokeWidth⟩

def value (e : Ellipse R) : Value R := recordOf "Ellipse" fields e

def ofValue (v : Value R) : Except (Fault R) (Ellipse R) := ofRecord "Ellipse" fields standard v

end Ellipse

namespace Binding

def fields : List (Field R (Binding R)) :=
  [⟨"target_edge_id", (·.target), fun v s => { s with target := v }⟩,
   ⟨"anchor", (·.anchor), fun v s => { s with anchor := v }⟩,
   ⟨"offset", (·.offset), fun v s => { s with offset := v }⟩]

def standard : Binding R := ⟨.none, .text "mid", .tuple [realNumber 0, realNumber 0]⟩

def value (b : Binding R) : Value R := recordOf "LabelBinding" fields b

def ofValue (v : Value R) : Except (Fault R) (Binding R) :=
  ofRecord "LabelBinding" fields standard v

end Binding

namespace Label

def fields : List (Field R (Label R)) :=
  [⟨"id", (·.id), fun v s => { s with id := v }⟩,
   ⟨"position", (·.position), fun v s => { s with position := v }⟩,
   ⟨"text", (·.text), fun v s => { s with text := v }⟩,
   ⟨"binding", (·.binding), fun v s => { s with binding := v }⟩]

omit [Arithmetic R] in
def standard : Label R := ⟨.none, .none, .none, .none⟩

def value (l : Label R) : Value R := recordOf "Label" fields l

def ofValue (v : Value R) : Except (Fault R) (Label R) := ofRecord "Label" fields standard v

/-- The binding of a label, if it has one. -/
def bound? (l : Label R) : Except (Fault R) (Option (Binding R)) :=
  match l.binding with
  | .none => .ok none
  | b => do return some (← Binding.ofValue b)

end Label

/-- An element of any kind. -/
inductive Element (R : Type) where
  | point (p : Point R)
  | edge (e : Edge R)
  | ellipse (e : Ellipse R)
  | label (l : Label R)

namespace Element

def value : Element R → Value R
  | point p => p.value
  | edge e => e.value
  | ellipse e => e.value
  | label l => l.value

omit [Arithmetic R] in
def id : Element R → Value R
  | point p => p.id
  | edge e => e.id
  | ellipse e => e.id
  | label l => l.id

def kind : Element R → String
  | point _ => "point"
  | edge _ => "edge"
  | ellipse _ => "ellipse"
  | label _ => "label"

section

omit [Arithmetic R]

/-- The element as a point; any other kind lacks the fields of one. -/
def asPoint : Element R → Except (Fault R) (Point R)
  | point p => .ok p
  | _ => .error .missingField

def asEdge : Element R → Except (Fault R) (Edge R)
  | edge e => .ok e
  | _ => .error .missingField

def asEllipse : Element R → Except (Fault R) (Ellipse R)
  | ellipse e => .ok e
  | _ => .error .missingField

def asLabel : Element R → Except (Fault R) (Label R)
  | label l => .ok l
  | _ => .error .missingField

/-- The position of a point or a label. -/
def position : Element R → Except (Fault R) (Value R)
  | point p => .ok p.position
  | label l => .ok l.position
  | _ => .error .missingField

end

/-- The element with a field replaced by any value. -/
def withField (name : String) (v : Value R) : Element R → Element R
  | point p => point (FeynmanTikz.withField Point.fields name v p)
  | edge e => edge (FeynmanTikz.withField Edge.fields name v e)
  | ellipse e => ellipse (FeynmanTikz.withField Ellipse.fields name v e)
  | label l => label (FeynmanTikz.withField Label.fields name v l)

/-- The element a record describes. -/
def ofValue (v : Value R) : Except (Fault R) (Element R) :=
  match v with
  | .record "Point" _ => point <$> Point.ofValue v
  | .record "Edge" _ => edge <$> Edge.ofValue v
  | .record "Ellipse" _ => ellipse <$> Ellipse.ofValue v
  | .record "Label" _ => label <$> Label.ofValue v
  | _ => .error .wrongType

end Element

/-- A record of any kind, completed with the values of the fields that were not given. -/
def completedRecord (v : Value R) : Except (Fault R) (Value R) :=
  match v with
  | .record "EdgeStyle" _ => Style.value <$> Style.ofValue v
  | .record "LabelBinding" _ => Binding.value <$> Binding.ofValue v
  | .record .. => Element.value <$> Element.ofValue v
  | v => .ok v

end FeynmanTikz
