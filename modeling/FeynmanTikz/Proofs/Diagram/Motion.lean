/-
Anchors stay inside their edge and follow it.

With exact numbers a point of an edge is a sum of its corners with weights that add up to one.  So it lies
between them, and wherever an update moves all corners by one vector, it moves every anchor by this vector and
with it every label that is bound to the edge.

* `Edge.Runs.anchorPoint`: an anchor is the point at a parameter from zero to one,
* `Moves δ e changes`: the changes that move all corners of an edge by `δ`, and `Moves.runs`: what they
  make of it,
* `LabelsFollow`: the labels of an edge stand `δ` further on, and any other label stands where it stood,
* `anchors_follow`: the points of a valid edge, and the effect of moving an edge after any run.
-/
import FeynmanTikz.Proofs.Diagram.Commutation
import FeynmanTikz.Proofs.Diagram.Coordinates
import FeynmanTikz.Proofs.Stroke.Curves

namespace FeynmanTikz

/-! ### Anchors -/

/-- An anchor has a parameter from zero to one. -/
theorem anchorParameter_unit {v : Value Exact} (h : ∃ t ∈ anchors, v = .text t) :
    ∃ t : Scalar Exact, anchorParameter v = .ok (.number t) ∧ 0 ≤ t.exact.value ∧ t.exact.value ≤ 1 := by
  obtain ⟨t, ht, rfl⟩ := h
  simp only [anchors, List.mem_cons, List.not_mem_nil, or_false] at ht
  rcases ht with rfl | rfl | rfl
  · exact ⟨_, rfl, by decide +kernel, by decide +kernel⟩
  · exact ⟨_, rfl, by decide +kernel, by decide +kernel⟩
  · exact ⟨_, rfl, by decide +kernel, by decide +kernel⟩

/-- One parameter does for all edges. -/
theorem anchorPoint_at {anchor : Value Exact} (h : ∃ t ∈ anchors, anchor = .text t) :
    ∃ t : Rat, 0 ≤ t ∧ t ≤ 1 ∧ ∀ {e : Edge Exact} {p q : Rat × Rat} {control : Option (Rat × Rat)},
      e.Runs p q control → ∃ v, (Diagram.anchorPoint (.edge e) anchor).result = .ok v ∧
        v.At (strokePoint p q control t) := by
  obtain ⟨t, ht, hzero, hone⟩ := anchorParameter_unit h
  refine ⟨t.exact.value, hzero, hone, fun hruns => ?_⟩
  obtain ⟨v, hv, hpoint⟩ := hruns.pointAt t
  refine ⟨v, ?_, hpoint⟩
  unfold Diagram.anchorPoint
  rw [Logged.result_bind]
  exact bind_eq_ok.2 ⟨_, ht, hv⟩

/-- All points of an edge lie between its corners, and no anchor is further from zero than a coordinate may be. -/
def Edge.StaysBetween (e : Edge Exact) : Prop := ∃ p q control, e.Runs p q control ∧
  (∀ t : Scalar Exact, 0 ≤ t.exact.value → t.exact.value ≤ 1 →
    ∃ v r, (e.pointAt (.number t)).result = .ok v ∧ v.At r ∧
      Between r.1 (p.1 :: q.1 :: (control.map Prod.fst).toList) ∧
      Between r.2 (p.2 :: q.2 :: (control.map Prod.snd).toList)) ∧
  ∀ name ∈ anchors, ∃ v r, (Diagram.anchorPoint (.edge e) (.text name)).result = .ok v ∧ v.At r ∧
    |r.1| ≤ maxMagnitude ∧ |r.2| ≤ maxMagnitude

theorem Edge.IsValid.staysBetween {e : Edge Exact} (h : e.IsValid) : e.StaysBetween := by
  obtain ⟨p, q, control, hruns, hxs, hys⟩ := h.exists_runs
  refine ⟨p, q, control, hruns, ?_, ?_⟩
  · intro t hzero hone
    obtain ⟨v, hv, hpoint⟩ := hruns.pointAt t
    exact ⟨v, _, hv, hpoint, between_strokeAt hzero hone _ _ _, between_strokeAt hzero hone _ _ _⟩
  · intro name hname
    obtain ⟨t, hzero, hone, hanchor⟩ := anchorPoint_at ⟨name, hname, rfl⟩
    obtain ⟨v, hv, hpoint⟩ := hanchor hruns
    exact ⟨v, _, hv, hpoint, abs_le_of_between (between_strokeAt hzero hone _ _ _) hxs,
      abs_le_of_between (between_strokeAt hzero hone _ _ _) hys⟩

/-! ### Changes that move an edge -/

/-- Some changes move all corners of an edge by `δ` and leave its kind alone. -/
structure Moves (δ : Rat × Rat) (e : Edge Exact) (changes : List (String × Value Exact)) : Prop where
  start : ∃ v p, changes.lookup "start" = some v ∧ e.start.At p ∧ v.At (p + δ)
  finish : ∃ v p, changes.lookup "end" = some v ∧ e.finish.At p ∧ v.At (p + δ)
  curve : e.isCurve = true → ∃ v p, changes.lookup "control" = some v ∧ e.control.At p ∧ v.At (p + δ)
  straight : e.isCurve = false → ∀ v, changes.lookup "control" = some v → v = .none
  kind : ∀ v, changes.lookup "kind" = some v → v = e.kind

/-- A pair is kept as it is, but for the brackets around it. -/
theorem Value.At.optionalPair {v w : Value Exact} {p : Rat × Rat} (h : v.At p)
    (hw : Diagram.optionalPair v = .ok w) : w.At p := by
  obtain ⟨a, b, hv, ha, hb⟩ := h
  have hpair : Diagram.optionalPair v = .ok (Value.pair a b) := by
    rcases hv with rfl | rfl <;> rfl
  obtain rfl := Except.ok.inj (hpair.symm.trans hw)
  exact ⟨a, b, isPair_pair a b, ha, hb⟩

/-- A valid edge that is not bent has no control point. -/
theorem Edge.IsValid.of_straight {R : Type} [Arithmetic R] {e : Edge R} (h : e.IsValid) (he : e.isCurve = false) :
    e.kind = .text "straight" ∧ e.control = .none := by
  rcases h.bend with hstraight | ⟨hkind, a, b, hcontrol, -⟩
  · exact hstraight
  · unfold Edge.isCurve at he
    rw [hkind] at he
    rcases hcontrol with hcontrol | hcontrol <;> rw [hcontrol] at he <;> cases he

namespace Moves

open Diagram

variable {δ : Rat × Rat} {e e' : Edge Exact} {changes : List (String × Value Exact)}

theorem changedPair {name : String} {old w : Value Exact} {p : Rat × Rat}
    (h : ∃ v q, changes.lookup name = some v ∧ old.At q ∧ v.At (q + δ)) (hold : old.At p)
    (hw : Diagram.changedPair changes name old = .ok w) : w.At (p + δ) := by
  obtain ⟨v, q, hlookup, hq, hv⟩ := h
  obtain rfl := hold.unique hq
  unfold Diagram.changedPair at hw
  rw [hlookup] at hw
  exact hv.optionalPair hw

theorem kind_eq (h : Moves δ e changes) (he : (changedEdge e changes).result = .ok e') : e'.kind = e.kind := by
  obtain ⟨-, -, hkind, -⟩ := of_changedEdge he
  rw [hkind]
  cases hlookup : changes.lookup "kind" with
  | none => rfl
  | some v => exact h.kind v hlookup

/-- A straight edge has no control point, and none is given to it. -/
theorem staysStraight (h : Moves δ e changes) (hvalid : e.IsValid) (hstraight : e.isCurve = false)
    (he : (changedEdge e changes).result = .ok e') : e'.isCurve = false := by
  obtain ⟨-, -, -, c, hcontrol, hdefault⟩ := of_changedEdge he
  obtain ⟨hword, hold⟩ := hvalid.of_straight hstraight
  have hnone : c = .none := by
    unfold changedControl at hcontrol
    cases hlookup : changes.lookup "control" with
    | none =>
      rw [hlookup, hold, ite_self] at hcontrol
      exact (Except.ok.inj hcontrol).symm
    | some v =>
      rw [hlookup, h.straight hstraight v hlookup] at hcontrol
      exact (Except.ok.inj hcontrol).symm
  have hkept : e'.control = .none := by
    unfold controlOrDefault at hdefault
    rw [h.kind_eq he, hword, hnone] at hdefault
    exact (Except.ok.inj hdefault).symm
  unfold Edge.isCurve
  rw [hkept]
  exact Bool.and_false _

/-- A curve stays one, and its control point is moved. -/
theorem staysCurve (h : Moves δ e changes) (hcurve : e.isCurve = true) {r : Rat × Rat} (hr : e.control.At r)
    (he : (changedEdge e changes).result = .ok e') : e'.isCurve = true ∧ e'.control.At (r + δ) := by
  obtain ⟨-, -, -, c, hcontrol, hdefault⟩ := of_changedEdge he
  obtain ⟨v, r', hlookup, hr', hv⟩ := h.curve hcurve
  obtain rfl := hr.unique hr'
  have hpair : optionalPair v = .ok c := by
    unfold changedControl at hcontrol
    rwa [hlookup] at hcontrol
  have hc : c.At (r + δ) := hv.optionalPair hpair
  rw [controlOrDefault_of_isSome _ _ _ hc.isSome] at hdefault
  obtain rfl := Except.ok.inj hdefault
  refine ⟨?_, hc⟩
  unfold Edge.isCurve at hcurve ⊢
  rw [h.kind_eq he, hc.isSome, Bool.and_true]
  exact (Bool.and_eq_true_iff.1 hcurve).1

/-- What has been moved runs between corners that have been moved. -/
theorem runs (h : Moves δ e changes) (hvalid : e.IsValid) {p q : Rat × Rat} {control : Option (Rat × Rat)}
    (hruns : e.Runs p q control) (he : (changedEdge e changes).result = .ok e') :
    e'.Runs (p + δ) (q + δ) (control.map (· + δ)) := by
  obtain ⟨hstart, hfinish, -⟩ := of_changedEdge he
  refine ⟨changedPair h.start hruns.start hstart, changedPair h.finish hruns.finish hfinish, ?_⟩
  rcases hruns.bend with ⟨hstraight, rfl⟩ | ⟨r, hcurve, rfl, hr⟩
  · exact .inl ⟨h.staysStraight hvalid hstraight he, rfl⟩
  · obtain ⟨hcurve', hr'⟩ := h.staysCurve hcurve hr he
    exact .inr ⟨_, hcurve', rfl, hr'⟩

end Moves

/-! ### Labels of an edge -/

/-- A label of an edge stands `δ` further on, and any other label stands where it stood. -/
inductive Accompanies (δ : Rat × Rat) (edge : Value Exact) (d t : Diagram Exact) (l m : Label Exact) : Prop
  | carried {v w : Value Exact} {p : Rat × Rat} (hbound : (Element.label l).isBoundTo edge = true)
      (hd : (d.resolve l).result = .ok v) (hv : v.At p) (ht : (t.resolve m).result = .ok w) (hw : w.At (p + δ))
  | left {v : Value Exact} (hfree : (Element.label l).isBoundTo edge = false)
      (hd : (d.resolve l).result = .ok v) (ht : (t.resolve m).result = .ok v)

/-- The labels of an edge, and no others, stand `δ` further on in `t` than in `d`. -/
def LabelsFollow (δ : Rat × Rat) (edge : Value Exact) (d t : Diagram Exact) : Prop :=
  List.Forall₂ (fun x y => y.1 = x.1 ∧ ∃ l m, x.2 = .label l ∧ y.2 = .label m ∧ Accompanies δ edge d t l m)
    d.labels.entries t.labels.entries

namespace Diagram

variable {d t : Diagram Exact}

/-- A label that is bound to an edge stands at a point of it and the offset. -/
theorem resolve_at {l : Label Exact} {b : Binding Exact} {k : Key} {e : Edge Exact} (hb : l.bound? = .ok (some b))
    (hk : b.target.expectKey = .ok k) (he : d.edges.find? k = some (.edge e)) {p o : Rat × Rat}
    (hp : ∃ v, (anchorPoint (.edge e) b.anchor).result = .ok v ∧ v.At p) (ho : b.offset.At o) :
    ∃ v, (d.resolve l).result = .ok v ∧ v.At (p + o) := by
  obtain ⟨v, hv, hvp⟩ := hp
  rw [d.resolve_of_bound hb hk he, hv, ok_bind]
  exact Vec.add_at hvp ho

/-- The edge under an id that has been changed. -/
theorem of_changedEdgeUnder {R : Type} [Arithmetic R] {d : Diagram R} {id : Value R}
    {changes : List (String × Value R)} {old e : Edge R} (h : d.changedEdgeUnder id changes = .ok e)
    (hold : lookUp d.edges id = .ok (.edge old)) : (changedEdge old changes).result = .ok e := by
  obtain ⟨old', hold', h⟩ := bind_eq_ok.1 h
  obtain rfl := Except.ok.inj (hold.symm.trans hold')
  split at h
  · obtain ⟨e', he, h⟩ := bind_eq_ok.1 h
    obtain ⟨⟨⟩, -, h⟩ := bind_eq_ok.1 h
    cases h
    exact he
  · cases h

namespace Sound

variable {id : Value Exact} {changes : List (String × Value Exact)} {old e : Edge Exact} {δ : Rat × Rat}

/-- What a label of an edge is bound to has the key of the id under which the edge is replaced. -/
theorem found (h : d.Sound) (hold : lookUp d.edges id = .ok (.edge old)) {l : Label Exact}
    (hl : .label l ∈ d.labels.values) {b : Binding Exact} (hb : l.bound? = .ok (some b))
    (hbound : (Element.label l).isBoundTo id = true) : ∃ k, b.target.expectKey = .ok k ∧
      d.edges.find? k = some (.edge old) ∧ ∀ e, (d.replaceEdge id e).edges.find? k = some (.edge e) := by
  obtain ⟨n, hn⟩ := h.orderly
  obtain ⟨i, -, -, hid, -⟩ := hn.of_lookUp (s := .edges) hold
  obtain ⟨j, hj⟩ := h.key?_target hl hb
  rw [Label.isBoundTo_of_bound hb, Option.any_some, same_iff_of_key? hj hid] at hbound
  subst hbound
  refine ⟨intKey j, expectKey_of_key? hj, ?_, fun e => ?_⟩
  · obtain ⟨k, hkid, hfind⟩ := lookUp_eq_ok.1 hold
    rwa [Except.ok.inj ((expectKey_of_key? hid).symm.trans hkid)]
  · show (d.edges.insert id (.edge e)).find? _ = _
    rw [Collection.find?_insert, if_pos hid]

/-- A label of an edge that has been moved. -/
theorem carried (h : d.Sound) (hold : lookUp d.edges id = .ok (.edge old))
    (hc : d.changedEdgeUnder id changes = .ok e) (hmoves : Moves δ old changes) {l m : Label Exact}
    (hl : .label l ∈ d.labels.values) (hbound : (Element.label l).isBoundTo id = true)
    (hm : m.binding = l.binding) (ht : t.edges = (d.replaceEdge id e).edges) : Accompanies δ id d t l m := by
  obtain ⟨n, hn⟩ := h.orderly
  obtain ⟨i, -, -, -, hmem⟩ := hn.of_lookUp (s := .edges) hold
  obtain ⟨hsound, -⟩ := h.label hl
  obtain ⟨b, hb, hbinding⟩ := hsound.binding
  cases b with
  | none =>
    rw [Label.isBoundTo_of_bound hb] at hbound
    cases hbound
  | some b =>
    obtain ⟨k, hk, hfind, hreplaced⟩ := h.found hold hl hb hbound
    have hfind' : t.edges.find? k = some (.edge e) := by rw [ht, hreplaced]
    have hvalid : old.IsValid := h.edge (List.mem_map_of_mem (f := Prod.snd) hmem)
    obtain ⟨p, q, control, hruns, -, -⟩ := hvalid.exists_runs
    have hruns' := hmoves.runs hvalid hruns (of_changedEdgeUnder hc hold)
    obtain ⟨x, -, -, hanchor⟩ := anchorPoint_at (hbinding b rfl).anchor
    obtain ⟨o, ho, -⟩ := (hbinding b rfl).offset.exists_at
    have hb' : m.bound? = .ok (some b) := by
      unfold Label.bound? at hb ⊢
      rwa [hm]
    obtain ⟨v, hv, hvp⟩ := resolve_at hb hk hfind (hanchor hruns) ho
    obtain ⟨w, hw, hwp⟩ := resolve_at hb' hk hfind' (hanchor hruns') ho
    refine .carried hbound hv hvp hw ?_
    rwa [strokePoint_add, add_right_comm] at hwp

theorem labelsFollow (h : d.Sound) (hold : lookUp d.edges id = .ok (.edge old)) (hmoves : Moves δ old changes)
    (ht : (Diagram.updateEdge id changes).outcome d = (.ok e, t)) : LabelsFollow δ id d t := by
  obtain ⟨n, hn⟩ := h.orderly
  obtain ⟨i, -, -, hid, -⟩ := hn.of_lookUp (s := .edges) hold
  obtain ⟨hc, rfl⟩ := h.of_updateEdge ht
  show List.Forall₂ _ d.labels.entries (d.labels.entries.map _)
  rw [List.forall₂_map_right_iff, List.forall₂_same]
  intro x hx
  have hx : x.2 ∈ d.labels.values := List.mem_map_of_mem (f := Prod.snd) hx
  obtain ⟨l, hl⟩ := h.exists_label hx
  rw [hl] at hx
  refine ⟨rfl, l, ?_⟩
  rw [hl]
  cases hbound : (Element.label l).isBoundTo id with
  | true =>
    rw [rested_label, if_pos hbound]
    exact ⟨_, rfl, rfl, h.carried hold hc hmoves hx hbound rfl rfl⟩
  | false =>
    rw [rested_of_not_bound hbound]
    obtain ⟨v, hv, -⟩ := h.resolve hx
    refine ⟨l, rfl, rfl, .left hbound hv ?_⟩
    rw [← hv]
    -- The edge of this label is found under another key.
    refine resolve_eq_of_find? fun b k hb hk => ?_
    have hne := ne_of_isBoundTo_eq_false hid hbound hb hk
    show (d.edges.insert id (.edge e)).find? k = d.edges.find? k
    rw [Collection.find?_insert, if_neg]
    rw [hid]
    exact fun heq => hne (Option.some.inj heq).symm

end Sound

/-! ### Every edge, and every run -/

/-- Every point of a valid edge lies between its corners.  After any run, an update that moves all corners of an
edge by `δ` and succeeds moves every label of this edge by just `δ`, and no other label. -/
theorem anchors_follow :
    (∀ e : Edge Exact, e.check = .ok () → e.StaysBetween) ∧
    ∀ start : Diagram Exact, start.IsStart → ∀ qs id changes old δ e t,
      lookUp (start.run qs).edges id = .ok (.edge old) → Moves δ old changes →
      (updateEdge id changes).outcome (start.run qs) = (.ok e, t) → LabelsFollow δ id (start.run qs) t := by
  refine ⟨fun e he => (Edge.check_eq_ok.1 he).staysBetween, ?_⟩
  intro start hs qs id changes old δ e t hold hmoves ht
  exact (hs.sound.run qs).labelsFollow hold hmoves ht

/-- A curve over the rationals. -/
def taggedCurve : Edge Exact where
  id := .int 1
  kind := .text "curve"
  start := .pair (.int 0) (.int 0)
  finish := .pair (.int 6) (.int 0)
  control := .pair (.int 3) (.int 4)
  style := Style.standard.value

/-- The curve is created, with a label that is bound to its middle and one that is not bound. -/
def taggedRequests : List (Request Exact) :=
  [.createEdge taggedCurve.kind taggedCurve.start taggedCurve.finish taggedCurve.control .none,
   .createLabel (.pair (.int 0) (.int 0)) (.text "p")
     (Binding.value ⟨.int 1, .text "mid", .pair (.int 0) (.int 1)⟩),
   .createLabel (.pair (.int 5) (.int 5)) (.text "q") .none]

/-- All three points two to the right and one up. -/
def shiftedCorners : List (String × Value Exact) :=
  [("start", .pair (.int 2) (.int (-1))), ("end", .pair (.int 8) (.int (-1))),
   ("control", .pair (.int 5) (.int 3))]

theorem moves_shiftedCorners : Moves (2, -1) taggedCurve shiftedCorners where
  start := ⟨_, (0, 0), rfl, ⟨_, _, .inl rfl, by simp, by simp⟩, _, _, .inl rfl, by simp, by simp⟩
  finish := ⟨_, (6, 0), rfl, ⟨_, _, .inl rfl, by simp, by simp⟩, _, _, .inl rfl, by norm_num, by norm_num⟩
  curve _ := ⟨_, (3, 4), rfl, ⟨_, _, .inl rfl, by simp, by simp⟩, _, _, .inl rfl, by norm_num, by norm_num⟩
  straight h := by cases h
  kind v h := by cases h

theorem anchors_follow_tagged : taggedCurve.StaysBetween ∧ ∃ e t,
    (updateEdge (.int 1) shiftedCorners).outcome ((empty : Diagram Exact).run taggedRequests) = (.ok e, t) ∧
      LabelsFollow (2, -1) (.int 1) ((empty : Diagram Exact).run taggedRequests) t := by
  have hcheck : taggedCurve.check.isOk = true := by decide +kernel
  have hok : ((updateEdge (.int 1) shiftedCorners).outcome
      ((empty : Diagram Exact).run taggedRequests)).1.isOk = true := by decide +kernel
  obtain ⟨⟨⟩, hcheck⟩ := exists_of_isOk hcheck
  obtain ⟨e, he⟩ := exists_of_isOk hok
  have hlookUp : lookUp ((empty : Diagram Exact).run taggedRequests).edges (.int 1) = .ok (.edge taggedCurve) := rfl
  refine ⟨anchors_follow.1 taggedCurve hcheck, e, _, Prod.ext he rfl, ?_⟩
  exact anchors_follow.2 empty (.inl rfl) taggedRequests _ _ _ _ _ _ hlookUp moves_shiftedCorners (Prod.ext he rfl)

end Diagram

end FeynmanTikz
