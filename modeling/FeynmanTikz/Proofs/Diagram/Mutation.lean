/-
What each mutation does, apart from what it writes.

Every mutation first computes an element from the diagram and its arguments, and checks it.  Here
these computations stand on their own (`newPoint`, `newEdge`, `movedLabel`, …), beside the change
of the diagram that follows (`withPoint`, `setLabel`, …), and one equation for each mutation says
that its outcome is the one followed by the other:

* `lookUp_eq_ok`, `element_eq_ok`: an element is under an id if it is found by the key of the id,
* `outcome_createPoint`, `outcome_createEdge`, `outcome_createEllipse`, `outcome_createLabel`,
* `outcome_moveLabel`, `outcome_bindLabel`, `outcome_unbindLabel`, `outcome_clear`,
* `outcome_settleLabel`, `outcome_releaseLabel`: one turn of the loops over the labels of an edge,
* `outcome_updateEdge`, `outcome_delete`: a computation, a write and such a loop.

What is known of an element that has been computed is said once, by `of_newPoint`, `of_newEdge`,
`of_newEllipse`, `of_newLabel`, `of_movedLabel` and `of_boundLabel`.  Later proofs cite these
equations and facts and never open a mutation.
-/
import FeynmanTikz.Proofs.Diagram.Collection
import FeynmanTikz.Proofs.Outcome

namespace FeynmanTikz.Diagram

open Edit

variable {R : Type} [Arithmetic R]

/-! ### What is under an id -/

theorem lookUp_eq_ok {α : Type} {c : Collection R α} {id : Value R} {a : α} :
    lookUp c id = .ok a ↔ ∃ k, id.expectKey = .ok k ∧ c.find? k = some a := by
  unfold lookUp
  rw [bind_eq_ok]
  refine exists_congr fun k => and_congr_right fun _ => ?_
  cases c.find? k <;> simp

theorem element_eq_ok {d : Diagram R} {id : Value R} {e : Element R} :
    d.element id = .ok e ↔ ∃ k, id.expectKey = .ok k ∧ d.get? k = some e := by
  unfold element
  rw [bind_eq_ok]
  refine exists_congr fun k => and_congr_right fun _ => ?_
  cases d.get? k <;> simp

/-! ### Creation -/

/-- The point that is about to be created. -/
def newPoint (d : Diagram R) (position radius : Value R) : Except (Fault R) (Point R) := do
  let position ← position.firstTwo
  let p : Point R := { id := .number d.next, position, radius }
  p.check
  return p

theorem of_newPoint {d : Diagram R} {position radius : Value R} {p : Point R}
    (h : d.newPoint position radius = .ok p) : p.id = .number d.next ∧ p.check = .ok () := by
  obtain ⟨position, -, h⟩ := bind_eq_ok.1 h
  obtain ⟨⟨⟩, hc, h⟩ := bind_eq_ok.1 h
  cases h
  exact ⟨rfl, hc⟩

def withPoint (d : Diagram R) (p : Point R) : Diagram R :=
  { d.takeId with points := d.points.insert p.id (.point p) }

theorem outcome_createPoint (d : Diagram R) (position radius : Value R) :
    (createPoint position radius).outcome d = written (newPoint d position radius) d.withPoint d := by
  unfold createPoint newPoint
  rw [outcome_bind_ok (outcome_current d), outcome_liftExcept_bind]
  rcases position.firstTwo with e | position
  · rfl
  · simp only [ok_bind, outcome_liftExcept_bind]
    rcases Point.check _ with e | _ <;> rfl

/-- The edge that is about to be created. -/
def newEdge (d : Diagram R) (kind start finish control style : Value R) :
    Except (Fault R) (Edge R) := do
  let control ← (controlOrDefault kind start finish control).result
  let start ← start.firstTwo
  let finish ← finish.firstTwo
  let control ← optionalPair control
  let style ← styleOrStandard style
  let e : Edge R := { id := .number d.next, kind, start, finish, control, style }
  e.check
  return e

theorem of_newEdge {d : Diagram R} {kind start finish control style : Value R} {e : Edge R}
    (h : d.newEdge kind start finish control style = .ok e) :
    e.id = .number d.next ∧ e.check = .ok () := by
  obtain ⟨control, -, h⟩ := bind_eq_ok.1 h
  obtain ⟨start, -, h⟩ := bind_eq_ok.1 h
  obtain ⟨finish, -, h⟩ := bind_eq_ok.1 h
  obtain ⟨control, -, h⟩ := bind_eq_ok.1 h
  obtain ⟨style, -, h⟩ := bind_eq_ok.1 h
  obtain ⟨⟨⟩, hc, h⟩ := bind_eq_ok.1 h
  cases h
  exact ⟨rfl, hc⟩

def withEdge (d : Diagram R) (e : Edge R) : Diagram R :=
  { d.takeId with edges := d.edges.insert e.id (.edge e) }

theorem outcome_createEdge (d : Diagram R) (kind start finish control style : Value R) :
    (createEdge kind start finish control style).outcome d =
      written (newEdge d kind start finish control style) d.withEdge d := by
  unfold createEdge newEdge
  rw [outcome_bind_ok (outcome_current d), outcome_liftLogged_bind]
  rcases (controlOrDefault kind start finish control).result with e | control
  · rfl
  simp only [ok_bind, outcome_liftExcept_bind]
  rcases start.firstTwo with e | start
  · rfl
  rcases finish.firstTwo with e | finish
  · rfl
  rcases optionalPair control with e | control
  · rfl
  rcases styleOrStandard style with e | style
  · rfl
  simp only [ok_bind]
  rcases Edge.check _ with e | _ <;> rfl

/-- The ellipse that is about to be created. -/
def newEllipse (d : Diagram R) (center rx ry color strokeWidth : Value R) :
    Except (Fault R) (Ellipse R) := do
  let center ← center.firstTwo
  let color ← asTuple color
  let e : Ellipse R := { id := .number d.next, center, rx, ry, color, strokeWidth }
  e.check
  return e

theorem of_newEllipse {d : Diagram R} {center rx ry color strokeWidth : Value R} {e : Ellipse R}
    (h : d.newEllipse center rx ry color strokeWidth = .ok e) :
    e.id = .number d.next ∧ e.check = .ok () := by
  obtain ⟨center, -, h⟩ := bind_eq_ok.1 h
  obtain ⟨color, -, h⟩ := bind_eq_ok.1 h
  obtain ⟨⟨⟩, hc, h⟩ := bind_eq_ok.1 h
  cases h
  exact ⟨rfl, hc⟩

def withEllipse (d : Diagram R) (e : Ellipse R) : Diagram R :=
  { d.takeId with ellipses := d.ellipses.insert e.id (.ellipse e) }

theorem outcome_createEllipse (d : Diagram R) (center rx ry color strokeWidth : Value R) :
    (createEllipse center rx ry color strokeWidth).outcome d =
      written (newEllipse d center rx ry color strokeWidth) d.withEllipse d := by
  unfold createEllipse newEllipse
  rw [outcome_bind_ok (outcome_current d), outcome_liftExcept_bind]
  rcases center.firstTwo with e | center
  · rfl
  simp only [ok_bind, outcome_liftExcept_bind]
  rcases asTuple color with e | color
  · rfl
  simp only [ok_bind]
  rcases Ellipse.check _ with e | _ <;> rfl

/-- The label that is about to be created, where its binding puts it. -/
def newLabel (d : Diagram R) (position text binding : Value R) : Except (Fault R) (Label R) := do
  let position ← position.firstTwo
  let binding ← bindingCopy binding
  let l : Label R := { id := .number d.next, position, text, binding }
  l.check d.edgeIds
  (d.placed l).result

/-- A label is checked before its position is computed from its binding. -/
theorem of_newLabel {d : Diagram R} {position text binding : Value R} {l : Label R}
    (h : d.newLabel position text binding = .ok l) : ∃ l₀ : Label R, l₀.id = .number d.next ∧
      l₀.text = text ∧ bindingCopy binding = .ok l₀.binding ∧ l₀.check d.edgeIds = .ok () ∧
      (d.placed l₀).result = .ok l := by
  obtain ⟨position, -, h⟩ := bind_eq_ok.1 h
  obtain ⟨binding, hb, h⟩ := bind_eq_ok.1 h
  obtain ⟨⟨⟩, hc, h⟩ := bind_eq_ok.1 h
  exact ⟨_, rfl, rfl, hb, hc, h⟩

def withLabel (d : Diagram R) (l : Label R) : Diagram R :=
  { d.takeId with labels := d.labels.insert l.id (.label l) }

theorem outcome_createLabel (d : Diagram R) (position text binding : Value R) :
    (createLabel position text binding).outcome d =
      written (newLabel d position text binding) d.withLabel d := by
  unfold createLabel newLabel
  rw [outcome_bind_ok (outcome_current d), outcome_liftExcept_bind]
  rcases position.firstTwo with e | position
  · rfl
  simp only [ok_bind, outcome_liftExcept_bind]
  rcases bindingCopy binding with e | binding
  · rfl
  simp only [ok_bind]
  rcases Label.check _ _ with e | _
  · rfl
  simp only [ok_bind, outcome_liftLogged_bind]
  rcases (d.placed _).result with e | l <;> rfl

/-! ### Changes in place -/

/-- The diagram with the label under an id replaced. -/
def replaceLabel (d : Diagram R) (id : Value R) (l : Label R) : Diagram R :=
  { d with labels := d.labels.insert id (.label l) }

/-- The diagram with the edge under an id replaced. -/
def replaceEdge (d : Diagram R) (id : Value R) (e : Edge R) : Diagram R :=
  { d with edges := d.edges.insert id (.edge e) }

/-- The label under an id at the position where it stands now. -/
def settledLabel (d : Diagram R) (id : Value R) : Except (Fault R) (Label R) := do
  let l ← d.labelUnder id
  return { l with position := ← (d.resolve l).result }

theorem outcome_settleLabel (d : Diagram R) (id : Value R) :
    (settleLabel id).outcome d =
      ((written (d.settledLabel id) (d.replaceLabel id) d).1.map fun _ => (),
        (written (d.settledLabel id) (d.replaceLabel id) d).2) := by
  unfold settleLabel settledLabel
  rw [outcome_bind_ok (outcome_current d), outcome_liftExcept_bind]
  rcases d.labelUnder id with e | l
  · rfl
  simp only [ok_bind, outcome_liftLogged_bind]
  rcases (d.resolve l).result with e | position <;> rfl

/-- The label under an id where it stands, without its binding. -/
def freedLabel (d : Diagram R) (id : Value R) : Except (Fault R) (Label R) := do
  let l ← d.labelUnder id
  return { l with position := ← (d.resolve l).result, binding := .none }

theorem outcome_releaseLabel (d : Diagram R) (edge id : Value R) :
    (releaseLabel edge id).outcome d =
      ((written (d.freedLabel id) (d.replaceLabel id) d).1.map fun _ => (),
        (written (d.freedLabel id) (d.replaceLabel id) d).2) := by
  unfold releaseLabel freedLabel
  rw [outcome_bind_ok (outcome_current d), outcome_liftExcept_bind]
  rcases d.labelUnder id with e | l
  · rfl
  simp only [ok_bind, outcome_liftLogged_bind]
  rcases (d.resolve l).result with e | position <;> rfl

theorem outcome_unbindLabel (d : Diagram R) (id : Value R) :
    (unbindLabel id).outcome d = written (d.freedLabel id) (d.replaceLabel id) d := by
  unfold unbindLabel freedLabel
  rw [outcome_bind_ok (outcome_current d), outcome_liftExcept_bind]
  rcases d.labelUnder id with e | l
  · rfl
  simp only [ok_bind, outcome_liftLogged_bind]
  rcases (d.resolve l).result with e | position <;> rfl

/-- The label under an id, moved. -/
def movedLabel (d : Diagram R) (id position : Value R) : Except (Fault R) (Label R) := do
  let old ← lookUp d.labels id
  let position ← position.firstTwo
  let l ← expectMovable old
  let binding ← (d.movedBinding l position).result
  let moved : Label R := { l with position, binding }
  moved.check d.edgeIds
  return moved

theorem of_movedLabel {d : Diagram R} {id position : Value R} {l : Label R}
    (h : d.movedLabel id position = .ok l) : ∃ (old : Label R) (p binding : Value R),
      lookUp d.labels id = .ok (.label old) ∧ position.firstTwo = .ok p ∧
      (d.movedBinding old p).result = .ok binding ∧ l = { old with position := p, binding } ∧
      l.check d.edgeIds = .ok () := by
  obtain ⟨old, ho, h⟩ := bind_eq_ok.1 h
  obtain ⟨p, hp, h⟩ := bind_eq_ok.1 h
  obtain ⟨l', hl, h⟩ := bind_eq_ok.1 h
  obtain ⟨binding, hb, h⟩ := bind_eq_ok.1 h
  obtain ⟨⟨⟩, hc, h⟩ := bind_eq_ok.1 h
  cases h
  cases old with
  | label old =>
    cases hl
    exact ⟨_, p, binding, ho, hp, hb, rfl, hc⟩
  | _ => cases hl

theorem outcome_moveLabel (d : Diagram R) (id position : Value R) :
    (moveLabel id position).outcome d = written (d.movedLabel id position) (d.replaceLabel id) d := by
  unfold moveLabel movedLabel
  rw [outcome_bind_ok (outcome_current d), outcome_liftExcept_bind]
  rcases lookUp d.labels id with e | old
  · rfl
  simp only [ok_bind, outcome_liftExcept_bind]
  rcases position.firstTwo with e | position
  · rfl
  rcases expectMovable old with e | l
  · rfl
  simp only [ok_bind, outcome_liftLogged_bind]
  rcases (d.movedBinding l position).result with e | binding
  · rfl
  simp only [ok_bind, outcome_liftExcept_bind]
  rcases Label.check _ _ with e | _ <;> rfl

/-- The label under an id, tied to an edge. -/
def boundLabel (d : Diagram R) (id edge anchor offset : Value R) :
    Except (Fault R) (Label R) := do
  let old ← lookUp d.labels id
  match d.edges.find? (← edge.expectKey) with
  | none => .error (.invalid (.element (.label id.plain) (.cannotBind edge)))
  | some e =>
    if !isOneOf anchors anchor then
      .error (.invalid (.element (.label id.plain) (.unknownAnchor anchor)))
    else
      let offset ← (offsetOrCurrent old e anchor offset).result
      let l ← expectBindable old
      let bound : Label R := { l with binding := Binding.value ⟨edge, anchor, offset⟩ }
      bound.check d.edgeIds
      (d.placed bound).result

/-- The label is checked where it has been, and put where its binding leads afterwards. -/
theorem of_boundLabel {d : Diagram R} {id edge anchor offset : Value R} {l : Label R}
    (h : d.boundLabel id edge anchor offset = .ok l) : ∃ old l₀ : Label R,
      lookUp d.labels id = .ok (.label old) ∧ l₀.id = old.id ∧ l₀.check d.edgeIds = .ok () ∧
      (d.placed l₀).result = .ok l := by
  obtain ⟨old, ho, h⟩ := bind_eq_ok.1 h
  obtain ⟨k, -, h⟩ := bind_eq_ok.1 h
  split at h
  · cases h
  split at h
  · cases h
  obtain ⟨offset, -, h⟩ := bind_eq_ok.1 h
  obtain ⟨l', hl, h⟩ := bind_eq_ok.1 h
  obtain ⟨⟨⟩, hc, hp⟩ := bind_eq_ok.1 h
  cases old with
  | label old =>
    cases hl
    exact ⟨_, { l' with binding := Binding.value ⟨edge, anchor, offset⟩ }, ho, rfl, hc, hp⟩
  | _ => cases hl

theorem outcome_bindLabel (d : Diagram R) (id edge anchor offset : Value R) :
    (bindLabel id edge anchor offset).outcome d =
      written (d.boundLabel id edge anchor offset) (d.replaceLabel id) d := by
  unfold bindLabel boundLabel
  rw [outcome_bind_ok (outcome_current d), outcome_liftExcept_bind]
  -- Nothing is written until all steps have succeeded, so each fault leaves both sides alike.
  rcases lookUp d.labels id with e | old
  · rfl
  simp only [ok_bind, outcome_liftExcept_bind]
  rcases edge.expectKey with e | k
  · rfl
  simp only [ok_bind]
  rcases d.edges.find? k with _ | e
  · rfl
  dsimp only
  split
  · rfl
  simp only [outcome_liftLogged_bind]
  rcases (offsetOrCurrent old e anchor offset).result with e | offset
  · rfl
  simp only [ok_bind, outcome_liftExcept_bind]
  rcases expectBindable old with e | l
  · rfl
  simp only [ok_bind]
  rcases Label.check _ _ with e | _
  · rfl
  simp only [ok_bind, outcome_liftLogged_bind]
  rcases (d.placed _).result with e | l <;> rfl

omit [Arithmetic R] in
theorem outcome_clear (d : Diagram R) : clear.outcome d = (.ok (), d.cleared) := rfl

/-! ### Edits with a loop over labels -/

omit [Arithmetic R] in
theorem outcome_forEach_cons {α : Type} (f : α → Mutation R Unit) (a : α) (as : List α)
    (d : Diagram R) :
    (forEach f (a :: as)).outcome d = match (f a).outcome d with
      | (.ok _, d') => (forEach f as).outcome d'
      | (.error e, d') => (.error e, d') := by
  rw [forEach, outcome_bind]
  rcases (f a).outcome d with ⟨_ | _, d'⟩ <;> rfl

/-- The outcome of an edit of every label bound to an edge. -/
def eachBound (f : Value R → Mutation R Unit) (edge : Value R) (d : Diagram R) :
    Except (Fault R) Unit × Diagram R :=
  match d.labelsBoundTo edge with
  | .ok ids => (forEach f ids).outcome d
  | .error e => (.error e, d)

/-- The edge under an id after some changes. -/
def changedEdgeUnder (d : Diagram R) (id : Value R) (changes : List (String × Value R)) :
    Except (Fault R) (Edge R) := do
  let old ← lookUp d.edges id
  match unknownFields changes with
  | [] =>
    let e ← (changedElement old changes).result
    e.check
    return e
  | names => .error (.invalid (.element (.edge id.plain) (.cannotUpdate names)))

theorem outcome_updateEdge (d : Diagram R) (id : Value R) (changes : List (String × Value R)) :
    (updateEdge id changes).outcome d = match d.changedEdgeUnder id changes with
      | .ok e =>
        ((eachBound settleLabel id (d.replaceEdge id e)).1.map fun _ => e,
          (eachBound settleLabel id (d.replaceEdge id e)).2)
      | .error e => (.error e, d) := by
  unfold updateEdge changedEdgeUnder
  rw [outcome_bind_ok (outcome_current d), outcome_liftExcept_bind]
  rcases lookUp d.edges id with e | old
  · rfl
  rcases unknownFields changes with _ | ⟨name, names⟩
  case cons => rfl
  simp only [ok_bind, outcome_liftLogged_bind]
  rcases (changedElement old changes).result with e | e
  · rfl
  simp only [ok_bind, outcome_liftExcept_bind]
  rcases e.check with e | _
  · rfl
  simp only [ok_bind, pure_eq_ok]
  rw [outcome_bind_ok (outcome_update _ _), outcome_liftExcept_bind]
  unfold eachBound
  rw [show (d.replaceEdge id e).labelsBoundTo id = d.labelsBoundTo id from rfl]
  rcases d.labelsBoundTo id with e | ids
  · rfl
  dsimp only
  rw [outcome_bind, ← replaceEdge]
  rcases (forEach settleLabel ids).outcome (d.replaceEdge id e) with ⟨_ | _, d'⟩ <;> rfl

/-- The release of the labels of an edge that is about to be deleted. -/
def releaseBound (id : Value R) (e : Element R) (d : Diagram R) :
    Except (Fault R) Unit × Diagram R :=
  match e with
  | .edge _ => eachBound (releaseLabel id) id d
  | _ => (.ok (), d)

/-- The diagram without an element, unless the release of its labels has failed. -/
def withoutElement (k : Key) (released : Except (Fault R) Unit × Diagram R) : Diagram R :=
  match released.1 with
  | .ok _ => eraseElement k released.2
  | .error _ => released.2

theorem outcome_delete (d : Diagram R) (id : Value R) :
    (delete id).outcome d = match d.element id with
      | .ok e =>
        ((releaseBound id e d).1.map fun _ => e, withoutElement ⟨id.keyParts⟩ (releaseBound id e d))
      | .error e => (.error e, d) := by
  unfold delete
  rw [outcome_bind_ok (outcome_current d), outcome_liftExcept_bind]
  rcases h : d.element id with e | e
  · rfl
  -- The element has been found under a key, so looking for the key again does not fail.
  have hk : id.expectKey = .ok ⟨id.keyParts⟩ := by
    obtain ⟨k, hk, -⟩ := element_eq_ok.1 h
    rw [hk, eq_of_expectKey hk]
  simp only [hk, outcome_liftExcept_bind]
  cases e with
  | edge e =>
    simp only [releaseBound, eachBound, outcome_liftExcept_bind]
    rcases d.labelsBoundTo id with e | ids
    · rfl
    dsimp only
    rw [outcome_bind]
    rcases (forEach (releaseLabel id) ids).outcome d with ⟨_ | _, d'⟩ <;> rfl
  | _ => rfl

end FeynmanTikz.Diagram
