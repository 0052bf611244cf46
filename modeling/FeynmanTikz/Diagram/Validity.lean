/-
Validity of elements.

An element is valid if its numbers are finite and within `maxMagnitude`, its lengths are
positive, its words are known, a curve has a control point and a straight edge has none, and
a label is one line with balanced braces that does not end in an open escape.

* `Point.check`, `Edge.check`, `Ellipse.check`, `Label.check` and `Style.check` report the first
  rule that is broken,
* `Element.checkAsPoint` and its companions do the same for an element of any kind,
* `bracesBalanced`: the brace count of a text never falls below zero and ends there.

Design notes.
* Rules are tried in a fixed order, so of two faults the same one is always reported.
* Whole numbers are compared with the bounds exactly, but one that is too large to be turned
  into a number of type `R` is a failure of arithmetic, not a violation.
-/
import FeynmanTikz.Diagram.Element

namespace FeynmanTikz

def edgeKinds : List String := ["straight", "curve"]

def strokeKinds : List String := ["solid", "dashed", "dotted", "wavy", "spring"]

def arrowStyles : List String :=
  ["none", "forward", "backward", "both", "mid-forward", "mid-backward", "mid-cross"]

def anchors : List String := ["start", "mid", "end"]

/-- The largest coordinate or length.  Up to here a coordinate written with two decimals
reads back as one that is written the same way. -/
def maxMagnitude : Rat := 1000000000

/-- The smallest radius of an ellipse. -/
def minEllipseRadius : Rat := 1

/-- The smallest radius of an ellipse, as it is written in messages. -/
def minEllipseRadiusText : String := "1.0"

/-- Whether the braces of a text are balanced, after `depth` open ones; a character after a
backslash does not count. -/
def bracesBalancedFrom : (depth : Nat) → List Char → Bool
  | depth, [] => depth == 0
  | depth, '\\' :: [] => depth == 0
  | depth, '\\' :: _ :: rest => bracesBalancedFrom depth rest
  | depth, '{' :: rest => bracesBalancedFrom (depth + 1) rest
  | 0, '}' :: _ => false
  | depth + 1, '}' :: rest => bracesBalancedFrom depth rest
  | depth, _ :: rest => bracesBalancedFrom depth rest

/-- Whether every brace has its partner. -/
def bracesBalanced (t : List Char) : Bool := bracesBalancedFrom 0 t

/-- Whether the text ends in an odd number of backslashes, the last of which escapes what
follows the text. -/
def endsInEscape (t : List Char) : Bool := (t.reverse.takeWhile (· == '\\')).length % 2 == 1

variable {R : Type} [Arithmetic R]

/-- Whether a number is finite; a whole number must also fit into `R`. -/
def isFiniteNumber (x : Scalar R) : Except (Fault R) Bool := do
  let x ← liftArithmetic x.toReal
  return Arithmetic.isFinite x

/-- Whether `x` lies further from zero than `maxMagnitude`. -/
def isFar (x : Reading) : Bool := (Reading.ofRat maxMagnitude).lt x.abs

def violation {α : Type} (s : Subject) (p : Problem R) : Except (Fault R) α :=
  .error (.invalid (.element s p))

/-- One coordinate of the pair `whole`. -/
def checkCoordinate (s : Subject) (part : Part) (whole : Value R) :
    Value R → Except (Fault R) Unit
  | .number x => do
    if !(← isFiniteNumber x) then violation s (.notFinitePair part whole)
    else if isFar x.reading then violation s (.farPair part whole)
    else return ()
  | _ => violation s (.notFinitePair part whole)

/-- A pair of finite numbers within bounds. -/
def checkPair (s : Subject) (part : Part) : Value R → Except (Fault R) Unit
  | v@(.tuple [x, y]) | v@(.list [x, y]) => do
    checkCoordinate s part v x
    checkCoordinate s part v y
  | v => violation s (.notPair part v)

/-- A finite number within bounds that satisfies `least`. -/
def checkLength (s : Subject) (part : Part) (v : Value R)
    (least : Scalar R → Except (Fault R) Unit) : Except (Fault R) Unit :=
  match v with
  | .number x => do
    if !(← isFiniteNumber x) then violation s (.notFinite part v)
    else if (Reading.ofRat maxMagnitude).lt x.reading then violation s (.tooLarge part v)
    else least x
  | _ => violation s (.notFinite part v)

/-- A positive length. -/
def checkPositive (s : Subject) (part : Part) (v : Value R) : Except (Fault R) Unit :=
  checkLength s part v fun x =>
    if x.reading.le (.ofInt 0) then violation s (.notPositive part v) else .ok ()

/-- A radius of an ellipse. -/
def checkRadius (s : Subject) (part : Part) (v : Value R) : Except (Fault R) Unit :=
  checkLength s part v fun x =>
    if x.reading.lt (.ofRat minEllipseRadius) then
      violation s (.tooSmall part minEllipseRadiusText v)
    else .ok ()

/-- A component of a colour: a whole number from 0 to 255. -/
def isComponent : Value R → Bool
  | .number (.int n) => 0 ≤ n && n ≤ 255
  | _ => false

/-- Three components. -/
def checkColor (s : Subject) : Value R → Except (Fault R) Unit
  | v@(.tuple items) | v@(.list items) =>
    if items.length ≠ 3 then violation s (.notTriple v)
    else if items.all isComponent then .ok ()
    else violation s (.badComponent v)
  | v => violation s (.notTriple v)

/-- Whether a value is one of some words. -/
def isOneOf (names : List String) : Value R → Bool
  | .text t => names.contains t
  | _ => false

def Style.check (d : Style R) (s : Subject) : Except (Fault R) Unit := do
  if !isOneOf strokeKinds d.strokeKind then violation s (.unknownStroke d.strokeKind)
  if !isOneOf arrowStyles d.arrow then violation s (.unknownArrow d.arrow)
  checkColor s d.color
  checkPositive s .strokeWidth d.strokeWidth

def Point.check (p : Point R) : Except (Fault R) Unit := do
  let s := Subject.point p.id.plain
  checkPair s .position p.position
  checkPositive s .radius p.radius

def Edge.check (e : Edge R) : Except (Fault R) Unit := do
  let s := Subject.edge e.id.plain
  if !isOneOf edgeKinds e.kind then violation s (.unknownKind e.kind)
  checkPair s .start e.start
  checkPair s .finish e.finish
  if isOneOf ["curve"] e.kind then
    match e.control with
    | .none => violation s .missingControl
    | control => checkPair s .control control
  else
    match e.control with
    | .none => pure ()
    | _ => violation s .strayControl
  (← e.drawn).check s

def Ellipse.check (e : Ellipse R) : Except (Fault R) Unit := do
  let s := Subject.ellipse e.id.plain
  checkPair s .center e.center
  checkRadius s .rx e.rx
  checkRadius s .ry e.ry
  checkColor s e.color
  checkPositive s .strokeWidth e.strokeWidth

/-- A text that can stand on one line of the text format. -/
def checkLabelText (s : Subject) : Value R → Except (Fault R) Unit
  | .text t =>
    let t := t.toList
    if t.contains '\n' || t.contains '\r' then violation s .textNotLine
    else if !bracesBalanced t then violation s .textUnbalanced
    else if endsInEscape t then violation s .textDangling
    else .ok ()
  | _ => violation s .textNotString

/-- A known anchor, a finite offset, and an edge that exists.  Without a collection of ids any
target will do. -/
def Binding.check (b : Binding R) (s : Subject) (edges : Value R) : Except (Fault R) Unit := do
  if !isOneOf anchors b.anchor then violation s (.unknownAnchor b.anchor)
  checkPair s .bindingOffset b.offset
  match edges with
  | .none => return ()
  | ids => if !(← ids.contains b.target) then violation s (.boundToMissing b.target)

def Label.check (l : Label R) (edges : Value R) : Except (Fault R) Unit := do
  let s := Subject.label l.id.plain
  checkPair s .position l.position
  checkLabelText s l.text
  match ← l.bound? with
  | none => return ()
  | some b => b.check s edges

namespace Element

/-- Checks what is kept among the points.  A label has a position to be checked, but then lacks
the radius. -/
def checkAsPoint : Element R → Except (Fault R) Unit
  | point p => p.check
  | label l => do
    checkPair (Subject.point l.id.plain) .position l.position
    .error .missingField
  | _ => .error .missingField

def checkAsEdge (e : Element R) : Except (Fault R) Unit := do (← e.asEdge).check

def checkAsEllipse (e : Element R) : Except (Fault R) Unit := do (← e.asEllipse).check

/-- Checks what is kept among the labels.  A point has a position to be checked, but then lacks
the text. -/
def checkAsLabel (edges : Value R) : Element R → Except (Fault R) Unit
  | label l => l.check edges
  | point p => do
    checkPair (Subject.label p.id.plain) .position p.position
    .error .missingField
  | _ => .error .missingField

end Element

end FeynmanTikz
