/-
Diagrams.

A diagram is four collections of elements and the id that the next new element takes.  Ids
are shared by all kinds of element and are never handed out twice.

* `Shelf`: one of the four collections,
* `Diagram.elements`, `Diagram.tally`, `Diagram.maxId`, `Diagram.isEmpty`,
* `Diagram.get?`: the element under an id, from the first collection that has it,
* `Diagram.resolve`: where a label stands,
* `Diagram.validate`: every invariant of a whole diagram.

Design notes.
* Nothing in the types keeps a diagram valid, since one may be assembled without checks.  Each
  collection is meant for one kind of element, but holds whatever has been put there; an element
  of another kind fails where it is asked for a field it has not got.
* The collections are always visited in one order: points, edges, ellipses, labels.
* Ids are whole numbers unless somebody has brought others in, so the next one is a scalar.
-/
import FeynmanTikz.Diagram.Collection
import FeynmanTikz.Diagram.Validity
import FeynmanTikz.Stroke.Position
import FeynmanTikz.Value.Order

namespace FeynmanTikz

/-- The collections of a diagram, in the order in which they are visited. -/
inductive Shelf where
  | points
  | edges
  | ellipses
  | labels
deriving DecidableEq

namespace Shelf

def all : List Shelf := [points, edges, ellipses, labels]

def name : Shelf → String
  | points => "points"
  | edges => "edges"
  | ellipses => "ellipses"
  | labels => "labels"

def ofName? (name : String) : Option Shelf := all.find? (·.name == name)

end Shelf

structure Diagram (R : Type) where
  points : Collection R (Element R) := {}
  edges : Collection R (Element R) := {}
  ellipses : Collection R (Element R) := {}
  labels : Collection R (Element R) := {}
  /-- The id of the next new element. -/
  next : Scalar R := .int 1

namespace Diagram

variable {R : Type}

def empty : Diagram R := {}

/-- One of the collections. -/
def shelf (d : Diagram R) : Shelf → Collection R (Element R)
  | .points => d.points
  | .edges => d.edges
  | .ellipses => d.ellipses
  | .labels => d.labels

/-- The diagram with one of its collections changed. -/
def onShelf (s : Shelf) (f : Collection R (Element R) → Collection R (Element R))
    (d : Diagram R) : Diagram R :=
  match s with
  | .points => { d with points := f d.points }
  | .edges => { d with edges := f d.edges }
  | .ellipses => { d with ellipses := f d.ellipses }
  | .labels => { d with labels := f d.labels }

/-- All elements, collection by collection. -/
def elements (d : Diagram R) : List (Element R) :=
  d.points.values ++ d.edges.values ++ d.ellipses.values ++ d.labels.values

/-- How many elements there are in each collection. -/
def tally (d : Diagram R) : Tally :=
  ⟨d.points.size, d.edges.size, d.ellipses.size, d.labels.size⟩

def isEmpty (d : Diagram R) : Bool :=
  d.points.isEmpty && d.edges.isEmpty && d.ellipses.isEmpty && d.labels.isEmpty

/-- Drops every element; ids keep counting. -/
def cleared (d : Diagram R) : Diagram R := { next := d.next }

variable [Arithmetic R]

/-- The largest of some ids. -/
def largest (id : Value R) : List (Value R) → Except (Fault R) (Value R)
  | [] => .ok id
  | other :: rest =>
    match Value.less? id other with
    | some true => largest other rest
    | some false => largest id rest
    | none => .error .wrongType

/-- The largest id of an element; zero if there is none. -/
def maxId (d : Diagram R) : Except (Fault R) (Value R) :=
  match d.elements.map Element.id with
  | [] => .ok (.int 0)
  | id :: ids => largest id ids

/-- The first collection that has a key. -/
def shelfOf? (d : Diagram R) (k : Key) : Option Shelf :=
  Shelf.all.find? fun s => (d.shelf s).contains k

/-- The element under a key. -/
def get? (d : Diagram R) (k : Key) : Option (Element R) := do
  let s ← d.shelfOf? k
  (d.shelf s).find? k

/-- Ids of the labels bound to an edge, among some entries. -/
def boundAmong (edge : Value R) : List (Value R × Element R) → Except (Fault R) (List (Value R))
  | [] => .ok []
  | (id, l) :: rest => do
    let isBound := match ← (← l.asLabel).bound? with
      | some b => b.target.same edge
      | none => false
    let ids ← boundAmong edge rest
    return if isBound then id :: ids else ids

/-- Ids of the labels bound to an edge. -/
def labelsBoundTo (d : Diagram R) (edge : Value R) : Except (Fault R) (List (Value R)) :=
  boundAmong edge d.labels.entries

/-- Makes sure that ids up to `id` are never handed out again. -/
def reserve (d : Diagram R) (id : Scalar R) : Diagram R := { d with next := d.next.max id.succ }

/-- The written form of the state of the ids. -/
def idsText (d : Diagram R) : String := "IdAllocator(next_id=" ++ d.next.text ++ ")"

/-- The ids of all edges, as a set. -/
def edgeIds (d : Diagram R) : Value R := .set d.edges.ids

/-- The position of an anchor of an edge. -/
def anchorPoint (e : Element R) (anchor : Value R) : Logged R (Value R) := do
  let t ← recordAnchorParameter anchor
  e.recordPointAt t

/-- Where a label stands: at the anchor of its edge and the offset while it is bound to an
edge that exists, else where it was. -/
def resolve (d : Diagram R) (l : Label R) : Logged R (Value R) := do
  match ← l.bound? with
  | none => return l.position
  | some b =>
    match d.edges.find? (← b.target.expectKey) with
    | none => return l.position
    | some e =>
      let p ← anchorPoint e b.anchor
      Vec.add p b.offset

/-- Ids of entries and of the elements there, collection by collection. -/
def entries (d : Diagram R) : List (Value R × Value R) :=
  (d.points.entries ++ d.edges.entries ++ d.ellipses.entries ++ d.labels.entries).map
    fun e => (e.1, e.2.id)

/-- Every element is stored under its own id, and no id occurs twice. -/
def checkIds (seen : List (Value R)) : List (Value R × Value R) → Except (Fault R) Unit
  | [] => .ok ()
  | (entry, id) :: rest =>
    if !entry.same id then .error (.invalid (.misplaced id entry))
    else if seen.any (·.same id) then .error (.invalid (.duplicate id))
    else checkIds (id :: seen) rest

/-- The next id is above all ids. -/
def checkNext (d : Diagram R) : Except (Fault R) Unit := do
  if d.isEmpty then return ()
  let last ← d.maxId
  if d.next.le (← last.expectNumber) then .error (.invalid (.reusable (.number d.next) last))

/-- Applies a check to every item until one fails. -/
def checkAll {α : Type} (f : α → Except (Fault R) Unit) : List α → Except (Fault R) Unit
  | [] => .ok ()
  | a :: rest => do
    f a
    checkAll f rest

/-- Checks every invariant of a whole diagram; the first that is broken is reported. -/
def validate (d : Diagram R) : Except (Fault R) Unit := do
  checkIds [] d.entries
  d.checkNext
  checkAll Element.checkAsPoint d.points.values
  checkAll Element.checkAsEdge d.edges.values
  checkAll Element.checkAsEllipse d.ellipses.values
  checkAll (Element.checkAsLabel d.edgeIds) d.labels.values

end Diagram

end FeynmanTikz
