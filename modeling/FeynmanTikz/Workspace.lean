/-
Workspaces: a diagram under edit, copies of it put aside, and the settings in force.

* `Workspace.diagram`: the diagram that steps work on, which belongs to a session once one has
  been started,
* `Workspace.onDiagram` and `Workspace.onSession` run edits on it,
* `Workspace.snapshot` and `Workspace.restore`: a copy under a name, and work on the copy itself,
* `Workspace.store`, `Workspace.assign`, `Workspace.assignStyle`: changes without any check.

Design notes.
* Restoring does not copy: what is done to the diagram afterwards is done to the snapshot.  The
  name of that snapshot is kept in `attached`, and every change of the diagram is also written
  there.  A new diagram, or a new snapshot of that name, ends this.
* A snapshot is found by the key of its name, like an element by that of its id.
* An unchecked change puts any value into a field, and any element into any collection.
-/
import FeynmanTikz.Listing
import FeynmanTikz.Preview
import FeynmanTikz.Session

namespace FeynmanTikz

structure Workspace (R : Type) where
  /-- The diagram before any session. -/
  free : Diagram R := {}
  session : Option (Session R) := none
  snapshots : Collection R (Diagram R) := {}
  /-- The name of the snapshot that the diagram is, if it is one. -/
  attached : Option (Value R) := none
  codec : Given R (Codec R)
  strokes : Given R (Strokes R)

namespace Workspace

variable {R : Type}

/-- Edits of a workspace. -/
abbrev Step (R α : Type) := Edit R (Workspace R) α

def diagram (w : Workspace R) : Diagram R :=
  match w.session with
  | some s => s.diagram
  | none => w.free

variable [Arithmetic R]

/-- Writes the diagram to the snapshot that it is. -/
def synchronised (w : Workspace R) : Workspace R :=
  match w.attached with
  | some name => { w with snapshots := w.snapshots.insert name w.diagram }
  | none => w

/-- The diagram after a change. -/
def setDiagram (d : Diagram R) (w : Workspace R) : Workspace R :=
  synchronised (match w.session with
    | some s => { w with session := some { s with diagram := d } }
    | none => { w with free := d })

/-- The diagram is no snapshot any more. -/
def detach (w : Workspace R) : Workspace R := { w with attached := none }

/-- Runs a mutation on the diagram. -/
def onDiagram {α : Type} (m : Diagram.Mutation R α) : Step R α := Edit.zoom diagram setDiagram m

/-- Asks something about the diagram. -/
def ask {α : Type} (f : Diagram R → Logged R α) : Step R α := do
  let w ← Edit.current
  f w.diagram

/-- Runs an action of the session; without one there is nothing to act on. -/
def onSession {α : Type} (m : Session.Action R α) : Step R α := fun w =>
  match w.session with
  | none => (.fail .missingField, w)
  | some s =>
    let (r, s) := m s
    (r, synchronised { w with session := some s })

/-- Puts a copy of the diagram aside. -/
def snapshot (name : Value R) : Step R Unit := do
  let k ← (name.expectKey : Except (Fault R) Key)
  Edit.update fun w =>
    let w := if w.attached.any fun a => a.key? = some k then w.detach else w
    { w with snapshots := w.snapshots.insert name w.diagram }

/-- Makes a snapshot the diagram. -/
def restore (name : Value R) : Step R Unit := do
  let w ← Edit.current
  let d ← (Diagram.lookUp w.snapshots name : Except (Fault R) (Diagram R))
  Edit.put (setDiagram d { w.detach with attached := some name })

def start : Workspace R :=
  { codec := Codec.given Codec.standard, strokes := Strokes.given Strokes.standard }

/-- The settings of the text format that are given, or the ones in force. -/
def codecOr (given : Value R) : Step R (Given R (Codec R)) := do
  let w ← Edit.current
  return Codec.orElse w.codec given

/-- The settings of strokes that are given, or the ones in force. -/
def strokesOr (given : Value R) : Step R (Given R (Strokes R)) := do
  let w ← Edit.current
  return Strokes.orElse w.strokes given

/-- Makes the diagram of a text the diagram. -/
def parse (text codec : Value R) : Step R Unit := do
  let codec ← codecOr codec
  let d ← Diagram.ofTextValue codec text
  Edit.update fun w => setDiagram d w.detach

/-- Writes the diagram, reads the text and writes it again.  Tells whether the two texts are
equal, and the second. -/
def roundTrip (codec : Value R) : Step R (Bool × String) := do
  let codec ← codecOr codec
  let first ← ask fun d => d.document codec
  let d ← Diagram.ofText codec first.toList
  let second ← d.document codec
  return (first == second, second)

/-- Settings of its own for a session, or none. -/
def ownCodec (v : Value R) : Option (Given R (Codec R)) :=
  if v.isTruthy then some (Codec.ofValue v) else none

/-- Starts a session, around the diagram or an empty one. -/
def startSession (codec : Value R) (keep : Bool) : Step R Unit := do
  let w ← Edit.current
  let s ← Session.start w.codec (if keep then w.diagram else {}) (ownCodec codec)
  Edit.update fun w => { (if keep then w else w.detach) with session := some s }

def regenerate (force : Bool) : Step R String := do
  let w ← Edit.current
  onSession (Session.regenerate w.codec force)

/-- Reads a text, or that of the editor, into the session.  Only a diagram that has been read
ends the tie to a snapshot. -/
def adopt (text : Value R) : Step R Unit := fun w =>
  match w.session with
  | none => (.fail .missingField, w)
  | some s =>
    let (r, s) := Session.adopt w.codec text s
    match r.result with
    | .ok _ => (r, { w.detach with session := some s })
    | .error _ => (r, w)

/-- Makes the diagram of a text the diagram of the session and writes it. -/
def apply (text : Value R) : Step R Unit := do
  adopt text
  let w ← Edit.current
  onSession (Session.publish w.codec)

/-- Drops every element of the session's diagram and writes it. -/
def clearSession : Step R Unit := do
  let w ← Edit.current
  onSession (Session.clear w.codec)

/-- The element under an id. -/
def get (id : Value R) : Step R (Element R) := do
  let w ← Edit.current
  w.diagram.element id

/-- What is stored among the edges under an id. -/
def edge (id : Value R) : Step R (Element R) := do
  let w ← Edit.current
  Diagram.lookUp w.diagram.edges id

/-- The label under an id. -/
def label (id : Value R) : Step R (Label R) := do
  let w ← Edit.current
  (w.diagram.labelUnder id : Except (Fault R) (Label R))

/-- Stores an element under an id in the collection of a name, without any check. -/
def store (collection : String) (id v : Value R) : Step R Unit := do
  let e ← (Element.ofValue v : Except (Fault R) (Element R))
  match Shelf.ofName? collection with
  | none => Edit.fail .missingField
  | some s =>
    let _ ← (id.expectKey : Except (Fault R) Key)
    onDiagram (Edit.update (Diagram.onShelf s (·.insert id e)))

/-- The diagram with another element under a key that it has. -/
def replaceElement (k : Key) (id : Value R) (e : Element R) (d : Diagram R) : Diagram R :=
  match d.shelfOf? k with
  | some s => d.onShelf s (·.insert id e)
  | none => d

/-- Replaces a field of an element, without any check. -/
def assign (id : Value R) (field : String) (v : Value R) : Step R Unit := do
  let e ← get id
  let k ← (id.expectKey : Except (Fault R) Key)
  onDiagram (Edit.update (replaceElement k id (e.withField field v)))

/-- Replaces a field of the style of an edge, without any check. -/
def assignStyle (id : Value R) (field : String) (v : Value R) : Step R Unit := do
  let e ← edge id
  let e ← (e.asEdge : Except (Fault R) (Edge R))
  let style ← (e.style.replacing field v : Except (Fault R) (Value R))
  onDiagram (Edit.update (Diagram.onShelf .edges (·.insert id (.edge { e with style }))))

/-- Sets the settings of the text format in force. -/
def setCodec (v : Value R) : Step R Unit :=
  Edit.update fun w => { w with codec := Codec.ofValue v }

/-- Sets the settings of strokes in force. -/
def setStrokes (v : Value R) : Step R Unit :=
  Edit.update fun w => { w with strokes := Strokes.ofValue v }

end Workspace

end FeynmanTikz
