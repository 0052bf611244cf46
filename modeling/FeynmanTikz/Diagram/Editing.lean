/-
Mutations of a diagram.

Every mutation takes values of no particular type, makes an element of them, checks it, and only
then writes.  `Edit` keeps whatever has been written when a step fails, so the order of the
steps below matters.

* `createPoint`, `createEdge`, `createEllipse`, `createLabel` take the next id,
* `delete` releases the labels bound to a deleted edge,
* `updateEdge` replaces fields of an edge and moves the labels bound to it,
* `moveLabel`, `bindLabel`, `unbindLabel`, `clear`.

Design notes.
* Of a position only what is found under the indices `0` and `1` is kept, and this is checked.
* A curve without a control point gets the default one, from the ends as they are given.
* An id is looked up by its key; what has none is no id.
* Under an id of an edge or a label there may be something else, put there without a check.  It
  fails where it is first asked for a field it has not got, which may be after other faults.
-/
import FeynmanTikz.Diagram.Basic

namespace FeynmanTikz.Diagram

variable {R : Type} [Arithmetic R]

/-- Edits of a diagram. -/
abbrev Mutation (R α : Type) := Edit R (Diagram R) α

/-- The entry a collection has for an id. -/
def lookUp {α : Type} (c : Collection R α) (id : Value R) : Except (Fault R) α := do
  match c.find? (← id.expectKey) with
  | some a => return a
  | none => .error (.missingKey id)

/-- The element under an id. -/
def element (d : Diagram R) (id : Value R) : Except (Fault R) (Element R) := do
  match d.get? (← id.expectKey) with
  | some e => return e
  | none => .error (.missingKey id)

/-- Nothing, or what is found in a value under the indices `0` and `1`. -/
def optionalPair : Value R → Except (Fault R) (Value R)
  | .none => .ok .none
  | v => v.firstTwo

/-- A copy of a record. -/
def recordCopy : Value R → Except (Fault R) (Value R)
  | .record name fields => .ok (.record name fields)
  | _ => .error .wrongType

/-- A copy of a style, or the standard one if none was handed in. -/
def styleOrStandard : Value R → Except (Fault R) (Value R)
  | .none => .ok Style.standard.value
  | style => recordCopy style

/-- A copy of a binding, or none if what was handed in is as good as nothing. -/
def bindingCopy (binding : Value R) : Except (Fault R) (Value R) :=
  if binding.isTruthy then recordCopy binding else .ok .none

/-- The control point, or the default one of a curve that has none. -/
def controlOrDefault (kind start finish control : Value R) : Logged R (Value R) :=
  if kind.isWord "curve" && !control.isSome then recordDefaultControl start finish
  else pure control

/-- Counts an id as handed out. -/
def takeId (d : Diagram R) : Diagram R := { d with next := d.next.succ }

def createPoint (position : Value R) (radius : Value R := Point.standardRadius) :
    Mutation R (Point R) := do
  let d ← Edit.current
  let position ← position.firstTwo
  let p : Point R := { id := .number d.next, position, radius }
  p.check
  Edit.update fun d => { d.takeId with points := d.points.insert p.id (.point p) }
  return p

def createEdge (kind start finish : Value R) (control style : Value R := .none) :
    Mutation R (Edge R) := do
  let d ← Edit.current
  let control ← controlOrDefault kind start finish control
  let start ← start.firstTwo
  let finish ← finish.firstTwo
  let control ← optionalPair control
  let style ← styleOrStandard style
  let e : Edge R := { id := .number d.next, kind, start, finish, control, style }
  e.check
  Edit.update fun d => { d.takeId with edges := d.edges.insert e.id (.edge e) }
  return e

/-- The members of a collection, as a tuple. -/
def asTuple (v : Value R) : Except (Fault R) (Value R) := do return .tuple (← v.expectMembers)

def createEllipse (center rx ry : Value R) (color : Value R := black)
    (strokeWidth : Value R := standardStrokeWidth) : Mutation R (Ellipse R) := do
  let d ← Edit.current
  let center ← center.firstTwo
  let color ← asTuple color
  let e : Ellipse R := { id := .number d.next, center, rx, ry, color, strokeWidth }
  e.check
  Edit.update fun d => { d.takeId with ellipses := d.ellipses.insert e.id (.ellipse e) }
  return e

/-- A label that stands where its binding puts it; an unbound one stays where it is. -/
def placed (d : Diagram R) (l : Label R) : Logged R (Label R) :=
  if l.binding.isSome then do return { l with position := ← d.resolve l } else pure l

def createLabel (position text : Value R) (binding : Value R := .none) :
    Mutation R (Label R) := do
  let d ← Edit.current
  let position ← position.firstTwo
  let binding ← bindingCopy binding
  let l : Label R := { id := .number d.next, position, text, binding }
  l.check d.edgeIds
  let l ← d.placed l
  Edit.update fun d => { d.takeId with labels := d.labels.insert l.id (.label l) }
  return l

/-- The label under an id, for an operation that asks what it is bound to. -/
def labelUnder (d : Diagram R) (id : Value R) : Except (Fault R) (Label R) := do
  (← lookUp d.labels id).asLabel

/-- Changes the label stored under an id. -/
def setLabel (id : Value R) (l : Label R) : Mutation R Unit :=
  Edit.update fun d => { d with labels := d.labels.insert id (.label l) }

/-- Sets the position of a label to where it stands now. -/
def settleLabel (id : Value R) : Mutation R Unit := do
  let d ← Edit.current
  let l ← (d.labelUnder id : Except (Fault R) (Label R))
  let position ← d.resolve l
  setLabel id { l with position }

/-- Leaves a label where it stands and takes its binding away. -/
def releaseLabel (edge id : Value R) : Mutation R Unit := do
  let d ← Edit.current
  let l ← (d.labelUnder id : Except (Fault R) (Label R))
  let position ← d.resolve l
  setLabel id { l with position, binding := .none }
  Edit.record (.labelReleased l.id edge)

/-- One mutation after the other. -/
def forEach {α : Type} (f : α → Mutation R Unit) : List α → Mutation R Unit
  | [] => return ()
  | k :: ks => do
    f k
    forEach f ks

/-- Takes the entry under a key out of the first collection that has it. -/
def eraseElement (k : Key) (d : Diagram R) : Diagram R :=
  match d.shelfOf? k with
  | some s => d.onShelf s (·.erase k)
  | none => d

/-- Removes an element.  Labels bound to a deleted edge stay where they are, unbound. -/
def delete (id : Value R) : Mutation R (Element R) := do
  let d ← Edit.current
  let e ← d.element id
  let k ← (id.expectKey : Except (Fault R) Key)
  match e with
  | .edge _ => forEach (releaseLabel id) (← (d.labelsBoundTo id : Except (Fault R) _))
  | _ => pure ()
  Edit.update (eraseElement k)
  return e

/-- Fields of an edge that can be updated. -/
def edgeFields : List String := ["kind", "start", "end", "control", "style"]

/-- The names that are no fields of an edge, sorted. -/
def unknownFields (changes : List (String × Value R)) : List String :=
  ((changes.map Prod.fst).filter fun n => !edgeFields.contains n).mergeSort (· ≤ ·)

/-- A position among the changes, cut to its first two coordinates.  Nothing, if it is given as such,
stays nothing; a position that is not given stays as it is. -/
def changedPair (changes : List (String × Value R)) (name : String) (old : Value R) :
    Except (Fault R) (Value R) :=
  match changes.lookup name with
  | none => .ok old
  | some v => optionalPair v

/-- The control point after the changes, before any default.  Making an edge straight drops
its control point, unless one is given. -/
def changedControl (changes : List (String × Value R)) (old : Value R) :
    Except (Fault R) (Value R) :=
  match changes.lookup "control" with
  | some v => optionalPair v
  | none =>
    if (changes.lookup "kind").any (·.isWord "straight") then .ok .none else .ok old

/-- An edge after some changes. -/
def changedEdge (old : Edge R) (changes : List (String × Value R)) : Logged R (Edge R) := do
  let start ← changedPair changes "start" old.start
  let finish ← changedPair changes "end" old.finish
  let control ← changedControl changes old.control
  let kind := (changes.lookup "kind").getD old.kind
  let control ← controlOrDefault kind start finish control
  let style ← match changes.lookup "style" with
    | none => pure old.style
    | some s => Logged.ofExcept (recordCopy s)
  return { old with kind, start, finish, control, style }

/-- The refusal to change what is no edge.  The positions among the changes are read all the
same; then there is no field to be changed, and without changes no kind to be looked at. -/
def refuseChanges {α : Type} (changes : List (String × Value R)) : Except (Fault R) α := do
  let _ ← changedPair changes "start" .none
  let _ ← changedPair changes "end" .none
  let _ ← changedPair changes "control" .none
  if changes.isEmpty then .error .missingField else .error .wrongType

/-- What is among the edges after some changes. -/
def changedElement (old : Element R) (changes : List (String × Value R)) : Logged R (Edge R) :=
  match old with
  | .edge e => changedEdge e changes
  | _ => Logged.ofExcept (refuseChanges changes)

/-- Replaces fields of an edge and moves the labels bound to it. -/
def updateEdge (id : Value R) (changes : List (String × Value R)) : Mutation R (Edge R) := do
  let d ← Edit.current
  let old ← (lookUp d.edges id : Except (Fault R) (Element R))
  match unknownFields changes with
  | [] => pure ()
  | names => Edit.fail (.invalid (.element (.edge id.plain) (.cannotUpdate names)))
  let e ← changedElement old changes
  e.check
  Edit.update fun d => { d with edges := d.edges.insert id (.edge e) }
  forEach settleLabel (← (d.labelsBoundTo id : Except (Fault R) _))
  return e

/-- The binding of a label after it has been moved: the same anchor, and the offset that
leads from it to the new position. -/
def movedBinding (d : Diagram R) (l : Label R) (position : Value R) : Logged R (Value R) := do
  match ← l.bound? with
  | none => return .none
  | some b =>
    let e ← lookUp d.edges b.target
    let anchor ← anchorPoint e b.anchor
    let offset ← Vec.sub position anchor
    return Binding.value { b with offset }

/-- A label that is about to be moved.  A point can be moved like one, but is bound to nothing;
edges and ellipses have no position to be replaced. -/
def expectMovable : Element R → Except (Fault R) (Label R)
  | .label l => .ok l
  | .point _ => .error .missingField
  | _ => .error .wrongType

/-- Moves a label.  A bound one keeps its anchor. -/
def moveLabel (id position : Value R) : Mutation R (Label R) := do
  let d ← Edit.current
  let old ← (lookUp d.labels id : Except (Fault R) (Element R))
  let position ← position.firstTwo
  let l ← (expectMovable old : Except (Fault R) (Label R))
  let binding ← d.movedBinding l position
  let moved : Label R := { l with position, binding }
  moved.check d.edgeIds
  setLabel id moved
  return moved

/-- The offset of a new binding: the one given, or the one that leaves the label where it
is. -/
def offsetOrCurrent (l e : Element R) (anchor offset : Value R) : Logged R (Value R) :=
  if offset.isSome then Logged.ofExcept offset.firstTwo
  else do
    let position ← l.position
    let p ← anchorPoint e anchor
    Vec.sub position p

/-- A label that is about to be bound; nothing else has a binding to be replaced. -/
def expectBindable : Element R → Except (Fault R) (Label R)
  | .label l => .ok l
  | _ => .error .wrongType

/-- Ties a label to an anchor of an edge.  Without an offset it stays where it is. -/
def bindLabel (id edge : Value R) (anchor : Value R := .text "mid") (offset : Value R := .none) :
    Mutation R (Label R) := do
  let d ← Edit.current
  let old ← (lookUp d.labels id : Except (Fault R) (Element R))
  match d.edges.find? (← (edge.expectKey : Except (Fault R) Key)) with
  | none => Edit.fail (.invalid (.element (.label id.plain) (.cannotBind edge)))
  | some e =>
    if !isOneOf anchors anchor then
      Edit.fail (.invalid (.element (.label id.plain) (.unknownAnchor anchor)))
    else
      let offset ← offsetOrCurrent old e anchor offset
      let l ← (expectBindable old : Except (Fault R) (Label R))
      let bound : Label R := { l with binding := Binding.value ⟨edge, anchor, offset⟩ }
      bound.check d.edgeIds
      let bound ← d.placed bound
      setLabel id bound
      return bound

/-- Leaves a label where it stands and takes its binding away. -/
def unbindLabel (id : Value R) : Mutation R (Label R) := do
  let d ← Edit.current
  let l ← (d.labelUnder id : Except (Fault R) (Label R))
  let position ← d.resolve l
  let free : Label R := { l with position, binding := .none }
  setLabel id free
  return free

/-- Drops every element; ids keep counting. -/
def clear : Mutation R Unit := Edit.update cleared

/-- Hands out an id. -/
def allocate : Mutation R (Value R) := do
  let d ← Edit.current
  Edit.put d.takeId
  return .number d.next

end FeynmanTikz.Diagram
