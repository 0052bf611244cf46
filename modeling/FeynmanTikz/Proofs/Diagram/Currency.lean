/-
The stored positions of labels are up to date.

The position of a bound label is stored beside its binding, so it has to be written anew wherever the
edge or the binding changes.  It is, with one proviso: a bound label that is moved is given the position
it is asked to take, which is where it stands only if its offset from the anchor is exact.

* `Diagram.Current`: every label is stored where it stands,
* `Diagram.movesExactly`, `runsExactly`: the anchor of a label that is moved and the difference to its
  new position add up to this position,
* `Refreshed`: what may become of a label in one request, `Sound.refreshed`: nothing else does,
* `Sound.current_after` and `Sound.current_run`: one exact request, and a run of them,
* `Sound.runsExactly_exact`: with exact numbers every run is exact,
* `RevisesEdge`: all that an update of an edge may change,
* `run_current`: the stored positions after a run, and the effect of an update of an edge then.
-/
import FeynmanTikz.Proofs.Diagram.Effects
import FeynmanTikz.Proofs.Number.Exact
import Mathlib.Tactic.Ring

namespace FeynmanTikz

open Edit

variable {R : Type} [Arithmetic R]

/-- Equal as values are compared, or the very same. -/
def Value.Agrees (v w : Value R) : Prop := v = w ∨ v.same w = true

namespace Diagram

/-- Every label is stored where it stands. -/
def Current (d : Diagram R) : Prop :=
  ∀ l, .label l ∈ d.labels.values → ∃ p, (d.resolve l).result = .ok p ∧ l.position.Agrees p

/-- The position a bound label is asked to take, and the sum of its anchor and the difference from
there; nothing for a label that is not bound. -/
def reckoned (d : Diagram R) (id position : Value R) :
    Except (Fault R) (Option (Value R × Value R)) := do
  let l ← d.labelUnder id
  let requested ← position.firstTwo
  match ← l.bound? with
  | none => return none
  | some b =>
    let e ← lookUp d.edges b.target
    let anchor ← (anchorPoint e b.anchor).result
    return some (requested, ← Vec.add anchor (← Vec.sub requested anchor))

/-- Whether a request, if it succeeds in moving a bound label, moves it without an error of rounding. -/
def movesExactly (d : Diagram R) : Request R → Bool
  | .moveLabel id position =>
    match ((moveLabel id position).outcome d).1, d.reckoned id position with
    | .ok _, .ok (some (requested, p)) => requested.same p
    | _, _ => true
  | _ => true

/-- Whether all labels that are moved in a run are moved without an error of rounding. -/
def runsExactly (d : Diagram R) : List (Request R) → Bool
  | [] => true
  | q :: qs => d.movesExactly q && (d.after q).runsExactly qs

/-- What may become of a label in a request that leads from `d` to `t`: it is as it was and stands
where it stood, it is stored where it stands now, or it has been moved. -/
inductive Refreshed (d t : Diagram R) (q : Request R) (l : Label R) : Prop
  | untouched (h : .label l ∈ d.labels.values) (hp : (t.resolve l).result = (d.resolve l).result)
  | settled (h : (t.resolve l).result = .ok l.position)
  | moved {id position p : Value R} (hq : q = .moveLabel id position)
      (hr : d.reckoned id position = .ok (some (l.position, p))) (hp : (t.resolve l).result = .ok p)

/-! ### One request -/

/-- A binding that has been stored is read back as it is. -/
theorem bound?_value (l : Label R) (b : Binding R) :
    ({ l with binding := b.value } : Label R).bound? = .ok (some b) := rfl

/-- The binding of a label that is moved keeps its target and its anchor. -/
theorem of_movedBinding {d : Diagram R} {l : Label R} {p binding : Value R}
    (h : (d.movedBinding l p).result = .ok binding) :
    (l.bound? = .ok none ∧ binding = .none) ∨ ∃ b k e anchor offset, l.bound? = .ok (some b) ∧
      b.target.expectKey = .ok k ∧ d.edges.find? k = some e ∧
      (anchorPoint e b.anchor).result = .ok anchor ∧ Vec.sub p anchor = .ok offset ∧
      binding = Binding.value { b with offset } := by
  unfold movedBinding at h
  rw [Logged.result_bind] at h
  obtain ⟨bound, hbound, h⟩ := bind_eq_ok.1 h
  cases bound with
  | none =>
    cases h
    exact .inl ⟨hbound, rfl⟩
  | some b =>
    simp only [Logged.result_bind, bind_eq_ok] at h
    obtain ⟨e, he, anchor, hanchor, offset, hoffset, h⟩ := h
    cases h
    obtain ⟨k, hk, hfind⟩ := lookUp_eq_ok.1 he
    exact .inr ⟨b, k, e, anchor, offset, hbound, hk, hfind, hanchor, hoffset, rfl⟩

/-- A label stands where its binding has put it. -/
theorem resolve_placed {d : Diagram R} {l l' : Label R} (h : (d.placed l).result = .ok l') :
    (d.resolve l').result = .ok l'.position := by
  unfold placed at h
  by_cases hb : l.binding.isSome = true
  · rw [if_pos hb, Logged.result_bind] at h
    obtain ⟨p, hp, h⟩ := bind_eq_ok.1 h
    cases h
    exact resolve_settled hp
  · rw [if_neg hb] at h
    cases h
    exact d.resolve_of_unbound (bound?_of_isSome (Bool.not_eq_true _ ▸ hb))

/-- A label of an edge is stored where it stands, and no other label changes. -/
theorem rested_eq_label {d : Diagram R} {edge : Value R} {rebind : Value R → Value R}
    {l₀ l : Label R} (h : d.rested edge rebind (.label l₀) = .label l) :
    ((Element.label l₀).isBoundTo edge = true ∧
        l = { l₀ with position := d.standing l₀, binding := rebind l₀.binding }) ∨
      ((Element.label l₀).isBoundTo edge = false ∧ l = l₀) := by
  rw [rested_label] at h
  split at h
  · rename_i hbound
    cases h
    exact .inl ⟨hbound, rfl⟩
  · rename_i hfree
    cases h
    exact .inr ⟨Bool.eq_false_iff.2 hfree, rfl⟩

namespace Sound

variable {d : Diagram R} {q : Request R}

/-- What a label is bound to is found among the edges. -/
theorem find?_target (h : d.Sound) {l : Label R} (hl : .label l ∈ d.labels.values) {b : Binding R}
    {k : Key} (hb : l.bound? = .ok (some b)) (hk : b.target.expectKey = .ok k) :
    ∃ e, d.edges.find? k = some e := by
  obtain ⟨n, hn⟩ := h.orderly
  obtain ⟨k', e, hk', he, -⟩ := hn.edge_of_isLive ((h.label hl).2.isLive hb)
  obtain rfl : k = k' := Except.ok.inj (hk.symm.trans hk')
  exact ⟨_, he⟩

/-- A new element is no edge of a label that has been there before. -/
theorem resolve_grown (h : d.Sound) {n : Int} (hn : d.Orderly n) {s : Shelf} {e : Element R}
    (he : e.id = .int n) {l : Label R} (hl : .label l ∈ d.labels.values) :
    ((d.grown s e).resolve l).result = (d.resolve l).result := by
  refine resolve_eq_of_find? fun b k hb hk => ?_
  obtain ⟨x, hx⟩ := h.find?_target hl hb hk
  obtain ⟨y, hy, -⟩ := Option.map_eq_some_iff.1 hx
  have hentries : (d.grown s e).edges.entries = _ := hn.entries_grown he .edges
  unfold Collection.find?
  rw [hentries]
  split
  · show ((d.edges.entries ++ _).find? _).map _ = _
    rw [List.find?_append, hy]
    rfl
  · rfl

theorem refreshed_grown (h : d.Sound) {n : Int} (hn : d.Orderly n) {s : Shelf} {e : Element R}
    (he : e.id = .int n)
    (hnew : ∀ l, e = .label l → ((d.grown s e).resolve l).result = .ok l.position) {l : Label R}
    (hl : .label l ∈ (d.grown s e).labels.values) : Refreshed d (d.grown s e) q l := by
  have hvalues : (d.grown s e).labels.values = _ := hn.values_grown he .labels
  rw [hvalues] at hl
  have hold (hl : .label l ∈ d.labels.values) : Refreshed d (d.grown s e) q l :=
    .untouched hl (h.resolve_grown hn he hl)
  split at hl
  · rcases List.mem_append.1 hl with hl | hl
    · exact hold hl
    · exact .settled (hnew l (List.mem_singleton.1 hl).symm)
  · exact hold hl

theorem refreshed_replaceLabel {id : Value R} {l l' : Label R}
    (hnew : Refreshed d (d.replaceLabel id l) q l)
    (hl : .label l' ∈ (d.replaceLabel id l).labels.values) :
    Refreshed d (d.replaceLabel id l) q l' := by
  rcases Collection.mem_values_insert hl with hl | hl
  · cases hl
    exact hnew
  · exact .untouched hl (congrArg Logged.result (resolve_congr rfl l'))

/-- A label that has been moved stands where its anchor and its new offset lead. -/
theorem refreshed_moved {id position : Value R} {l : Label R}
    (hl : d.movedLabel id position = .ok l) (ht : (d.replaceLabel id l).Sound)
    (hm : .label l ∈ (d.replaceLabel id l).labels.values) :
    Refreshed d (d.replaceLabel id l) (.moveLabel id position) l := by
  obtain ⟨p, hp, -⟩ := ht.resolve hm
  obtain ⟨old, requested, binding, ho, hr, hb, rfl, -⟩ := of_movedLabel hl
  have hunder : d.labelUnder id = .ok old := bind_eq_ok.2 ⟨_, ho, rfl⟩
  rcases of_movedBinding hb with ⟨hbound, rfl⟩ | ⟨b, k, e, anchor, offset, hbound, hk, hfind, ha, ho, rfl⟩
  · exact .settled (resolve_of_unbound _ rfl)
  · -- The edge is the one from before, and the offset is the difference that has been stored.
    have hedge : (d.replaceLabel id ⟨old.id, requested, old.text,
      Binding.value { b with offset }⟩).edges.find? k = some e := hfind
    have hsum : Vec.add anchor offset = .ok p := by
      have hstored := bound?_value { old with position := requested } { b with offset }
      rwa [resolve_of_bound _ hstored hk hedge, ha, ok_bind] at hp
    refine .moved rfl (bind_eq_ok.2 ⟨old, hunder, bind_eq_ok.2 ⟨requested, hr, ?_⟩⟩) hp
    rw [hbound, ok_bind]
    dsimp only
    rw [lookUp_eq_ok.2 ⟨k, hk, hfind⟩, ok_bind, ha, ok_bind, ho, ok_bind, hsum]
    rfl

/-- A deletion that succeeds has found an element under the id. -/
theorem of_delete (h : d.Sound) {id : Value R} {e : Element R} {t : Diagram R}
    (ht : (Diagram.delete id).outcome d = (.ok e, t)) :
    ∃ s, e ∈ (d.shelf s).values ∧ id.key? = e.id.key? ∧ t = d.deleted s id := by
  have helement : d.element id = .ok e := by
    rw [outcome_delete] at ht
    cases he : d.element id with
    | error f =>
      rw [he] at ht
      cases ht
    | ok e' =>
      rw [he] at ht
      have hresult : (releaseBound id e' d).1.map (fun _ => e') = .ok e := congrArg Prod.fst ht
      cases hr : (releaseBound id e' d).1 with
      | error f =>
        rw [hr] at hresult
        cases hresult
      | ok a =>
        rw [hr] at hresult
        exact congrArg _ (Except.ok.inj hresult)
  obtain ⟨s, he, hid⟩ := h.of_element helement
  exact ⟨s, he, hid, (Prod.mk.inj (ht.symm.trans (h.outcome_delete_eq he hid))).2⟩

theorem refreshed_deleted (h : d.Sound) {s : Shelf} {e : Element R} (he : e ∈ (d.shelf s).values)
    {id : Value R} (hid : id.key? = e.id.key?) {l : Label R}
    (hl : .label l ∈ (d.deleted s id).labels.values) : Refreshed d (d.deleted s id) q l := by
  have hentries : (d.deleted s id).labels.entries = _ := h.entries_deleted he hid .labels
  obtain ⟨y, hy, hyl⟩ := List.mem_map.1 hl
  rw [hentries] at hy
  obtain ⟨x, hx, rfl⟩ := List.mem_map.1 hy
  have hm : x.2 ∈ d.labels.values := List.mem_map_of_mem (f := Prod.snd) (List.mem_of_mem_filter hx)
  obtain ⟨l₀, hl₀⟩ := h.exists_label hm
  rw [hl₀] at hm
  have hrested : d.rested id (fun _ => .none) (.label l₀) = .label l := by rw [← hl₀, ← hyl]
  have hresolve := h.resolve_deleted he hid hm hrested
  rcases rested_eq_label hrested with ⟨-, rfl⟩ | ⟨-, rfl⟩
  · exact .settled (resolve_of_unbound _ rfl)
  · exact .untouched hm hresolve

/-- An update that succeeds has found an edge under the id. -/
theorem of_updateEdge (h : d.Sound) {id : Value R} {changes : List (String × Value R)} {e : Edge R}
    {t : Diagram R} (ht : (Diagram.updateEdge id changes).outcome d = (.ok e, t)) :
    d.changedEdgeUnder id changes = .ok e ∧
      t = (d.replaceEdge id e).restLabels id fun binding => binding := by
  cases hc : d.changedEdgeUnder id changes with
  | error f =>
    rw [outcome_updateEdge, hc] at ht
    cases ht
  | ok e' =>
    rw [h.outcome_updateEdge_eq hc] at ht
    cases ht
    exact ⟨rfl, rfl⟩

theorem refreshed_updated (h : d.Sound) {id : Value R} {changes : List (String × Value R)} {e : Edge R}
    (he : d.changedEdgeUnder id changes = .ok e) {l : Label R}
    (hl : .label l ∈ ((d.replaceEdge id e).restLabels id fun binding => binding).labels.values) :
    Refreshed d ((d.replaceEdge id e).restLabels id fun binding => binding) q l := by
  obtain ⟨n, hn⟩ := h.orderly
  obtain ⟨old, hold, -⟩ := bind_eq_ok.1 he
  obtain ⟨i, -, -, hid, -⟩ := hn.of_lookUp (s := .edges) hold
  have hsound : (d.replaceEdge id e).Sound := h.replaceEdge he
  have hvalues := Collection.values_mapValues
    ((d.replaceEdge id e).rested id fun binding => binding) d.labels
  obtain ⟨x, hx, hxl⟩ := List.mem_map.1 (hvalues ▸ hl)
  obtain ⟨l₀, rfl⟩ := h.exists_label hx
  rcases rested_eq_label hxl with ⟨-, rfl⟩ | ⟨hfree, rfl⟩
  · -- The label is stored where it stands beside the changed edge.
    refine .settled ((congrArg Logged.result (resolve_congr rfl _)).trans ?_)
    exact resolve_settled (hsound.resolve_standing hx)
  · refine .untouched hx (resolve_eq_of_find? fun b k hb hk => ?_)
    have hne := ne_of_isBoundTo_eq_false hid hfree hb hk
    show (d.edges.insert id (.edge e)).find? k = d.edges.find? k
    rw [Collection.find?_insert, if_neg]
    rw [hid]
    exact fun heq => hne (Option.some.inj heq).symm

/-- A request that succeeds leaves a label where it stands, stores it there, or moves it. -/
theorem refreshed (h : d.Sound) {a : Option (Element R)} {t : Diagram R}
    (hq : (Diagram.perform q).outcome d = (.ok a, t)) {l : Label R}
    (hl : .label l ∈ t.labels.values) : Refreshed d t q l := by
  obtain ⟨n, hn⟩ := h.orderly
  cases q with
  | createPoint position radius =>
    obtain ⟨p, hp, -⟩ := outcome_bind_pure_eq_ok.1 hq
    rw [outcome_createPoint, written_eq_ok] at hp
    obtain ⟨hnew, rfl⟩ := hp
    obtain ⟨hid, -⟩ := of_newPoint hnew
    exact h.refreshed_grown (s := .points) (e := .point p) hn (hid.trans hn.number_next)
      (by rintro l ⟨⟩) hl
  | createEdge kind start finish control style =>
    obtain ⟨e, he, -⟩ := outcome_bind_pure_eq_ok.1 hq
    rw [outcome_createEdge, written_eq_ok] at he
    obtain ⟨hnew, rfl⟩ := he
    obtain ⟨hid, -⟩ := of_newEdge hnew
    exact h.refreshed_grown (s := .edges) (e := .edge e) hn (hid.trans hn.number_next)
      (by rintro l ⟨⟩) hl
  | createEllipse center rx ry color strokeWidth =>
    obtain ⟨e, he, -⟩ := outcome_bind_pure_eq_ok.1 hq
    rw [outcome_createEllipse, written_eq_ok] at he
    obtain ⟨hnew, rfl⟩ := he
    obtain ⟨hid, -⟩ := of_newEllipse hnew
    exact h.refreshed_grown (s := .ellipses) (e := .ellipse e) hn (hid.trans hn.number_next)
      (by rintro l ⟨⟩) hl
  | createLabel position text binding =>
    obtain ⟨l', hl', -⟩ := outcome_bind_pure_eq_ok.1 hq
    rw [outcome_createLabel, written_eq_ok] at hl'
    obtain ⟨hnew, rfl⟩ := hl'
    obtain ⟨l₀, hid, -, -, -, hplaced⟩ := of_newLabel hnew
    obtain ⟨p, rfl⟩ := Orderly.of_placed hplaced
    refine h.refreshed_grown (s := .labels) (e := .label { l₀ with position := p }) hn
      (hid.trans hn.number_next) ?_ hl
    rintro _ ⟨⟩
    exact (congrArg Logged.result (resolve_congr rfl _)).trans (resolve_placed hplaced)
  | delete id =>
    obtain ⟨e, he, -⟩ := outcome_bind_pure_eq_ok.1 hq
    obtain ⟨s, hs, hid, rfl⟩ := h.of_delete he
    exact h.refreshed_deleted hs hid hl
  | updateEdge id changes =>
    obtain ⟨e, he, -⟩ := outcome_bind_pure_eq_ok.1 hq
    obtain ⟨hchanged, rfl⟩ := h.of_updateEdge he
    exact h.refreshed_updated hchanged hl
  | moveLabel id position =>
    have hsound : ((Diagram.perform (.moveLabel id position)).outcome d).2.Sound := h.after _
    rw [hq] at hsound
    obtain ⟨l', hl', -⟩ := outcome_bind_pure_eq_ok.1 hq
    rw [outcome_moveLabel, written_eq_ok] at hl'
    obtain ⟨hmoved, rfl⟩ := hl'
    rcases Collection.mem_values_insert hl with hnew | hold
    · cases hnew
      exact refreshed_moved hmoved hsound hl
    · exact .untouched hold (congrArg Logged.result (resolve_congr rfl l))
  | bindLabel id edge anchor offset =>
    obtain ⟨l', hl', -⟩ := outcome_bind_pure_eq_ok.1 hq
    rw [outcome_bindLabel, written_eq_ok] at hl'
    obtain ⟨hbound, rfl⟩ := hl'
    obtain ⟨-, l₀, -, -, -, hplaced⟩ := of_boundLabel hbound
    have hstands := (congrArg Logged.result (resolve_congr rfl l')).trans (resolve_placed hplaced)
    exact refreshed_replaceLabel (.settled hstands) hl
  | unbindLabel id =>
    obtain ⟨l', hl', -⟩ := outcome_bind_pure_eq_ok.1 hq
    rw [outcome_unbindLabel, written_eq_ok] at hl'
    obtain ⟨hfreed, rfl⟩ := hl'
    obtain ⟨old, -, hfreed⟩ := bind_eq_ok.1 hfreed
    obtain ⟨p, -, hfreed⟩ := bind_eq_ok.1 hfreed
    cases hfreed
    exact refreshed_replaceLabel (.settled (resolve_of_unbound _ rfl)) hl
  | clear =>
    obtain ⟨_, hclear, -⟩ := outcome_bind_pure_eq_ok.1 hq
    cases hclear
    cases hl

/-! ### Runs -/

theorem same_of_movesExactly {id position requested p : Value R} {l : Label R} {t : Diagram R}
    (hexact : d.movesExactly (.moveLabel id position) = true)
    (hmoved : (Diagram.moveLabel id position).outcome d = (.ok l, t))
    (hr : d.reckoned id position = .ok (some (requested, p))) : requested.same p = true := by
  unfold movesExactly at hexact
  dsimp only at hexact
  rw [hmoved, hr] at hexact
  exact hexact

/-- An exact request leaves every label stored where it stands. -/
theorem current_after (h : d.Sound) (hc : d.Current) (hexact : d.movesExactly q = true) :
    (d.after q).Current := by
  unfold Diagram.after
  rcases hq : (Diagram.perform q).outcome d with ⟨e | a, t⟩
  · have hunchanged := (h.perform q).unchanged (congrArg Prod.fst hq)
    rw [hq] at hunchanged
    rwa [hunchanged]
  · intro l hl
    cases h.refreshed hq hl with
    | untouched hold hp =>
      obtain ⟨p, hd, hagrees⟩ := hc l hold
      exact ⟨p, hp.trans hd, hagrees⟩
    | settled hp => exact ⟨l.position, hp, .inl rfl⟩
    | moved hmove hr hp =>
      subst hmove
      obtain ⟨l', hl', -⟩ := outcome_bind_pure_eq_ok.1 hq
      exact ⟨_, hp, .inr (same_of_movesExactly hexact hl' hr)⟩

theorem current_run : ∀ {d : Diagram R}, d.Sound → d.Current → ∀ qs : List (Request R),
    d.runsExactly qs = true → (d.run qs).Current
  | _, _, hc, [], _ => hc
  | _, h, hc, q :: qs, hexact => by
    obtain ⟨hq, hqs⟩ := Bool.and_eq_true_iff.1 hexact
    exact (h.after q).current_run (h.current_after hc hq) qs hqs

end Sound

/-- What has been read from a text has no bound labels. -/
theorem IsStart.current {d : Diagram R} (h : d.IsStart) : d.Current := by
  intro l hl
  rcases h with rfl | ⟨codec, text, h⟩
  · cases hl
  · obtain ⟨-, -, -, hbinding⟩ := readable_ofText h .labels _ hl
    refine ⟨l.position, d.resolve_of_unbound ?_, .inl rfl⟩
    unfold Label.bound?
    rw [hbinding]

end Diagram

/-! ### Exact numbers -/

namespace Computed

theorem add_exact (a b : Scalar Exact) : ∃ c, of (.number a) + of (.number b) = of (.number c) ∧
    c.exact.value = a.exact.value + b.exact.value := by
  obtain ⟨c, hc, hvalue⟩ := a.add_exact b
  refine ⟨c, ?_, hvalue⟩
  rw [add_of, Value.add_number, hc]
  rfl

theorem sub_exact (a b : Scalar Exact) : ∃ c, of (.number a) - of (.number b) = of (.number c) ∧
    c.exact.value = a.exact.value - b.exact.value := by
  obtain ⟨c, hc, hvalue⟩ := a.sub_exact b
  refine ⟨c, ?_, hvalue⟩
  rw [sub_of, Value.sub_number, hc]
  rfl

end Computed

/-- An operation on coordinates is carried out on the first and on the second ones. -/
theorem Vec.coordinatewise_exact {f : Computed Exact → Computed Exact → Computed Exact}
    {op : Rat → Rat → Rat}
    (hf : ∀ a b : Scalar Exact, ∃ c, f (.of (.number a)) (.of (.number b)) = .of (.number c) ∧
      c.exact.value = op a.exact.value b.exact.value)
    {u v : Value Exact} {a b c d : Scalar Exact} (hu : IsPair u a b) (hv : IsPair v c d) :
    ∃ x y, Vec.ofFormulas (f u.x v.x) (f u.y v.y) = .ok (Value.pair x y) ∧
      x.exact.value = op a.exact.value c.exact.value ∧
      y.exact.value = op b.exact.value d.exact.value := by
  obtain ⟨x, hx, hxv⟩ := hf a c
  obtain ⟨y, hy, hyv⟩ := hf b d
  refine ⟨x, y, ?_, hxv, hyv⟩
  have hux : u.x = Computed.of (.number a) := x_of_isPair hu
  have hvx : v.x = Computed.of (.number c) := x_of_isPair hv
  have huy : u.y = Computed.of (.number b) := y_of_isPair hu
  have hvy : v.y = Computed.of (.number d) := y_of_isPair hv
  rw [hux, hvx, huy, hvy, hx, hy]
  rfl

/-- The sum of an anchor and the difference between a position and it is that position. -/
theorem same_of_add_sub {a b : Scalar Exact} {anchor difference p : Value Exact}
    (ha : IsNumberPair anchor) (hd : Vec.sub (Value.pair a b) anchor = .ok difference)
    (hp : Vec.add anchor difference = .ok p) : (Value.pair a b).same p = true := by
  obtain ⟨c, d, ha⟩ := ha
  obtain ⟨x, y, hxy, hx, hy⟩ := Vec.coordinatewise_exact Computed.sub_exact (isPair_pair a b) ha
  obtain rfl := Except.ok.inj (hd.symm.trans hxy)
  obtain ⟨v, w, hvw, hv, hw⟩ := Vec.coordinatewise_exact Computed.add_exact ha (isPair_pair x y)
  obtain rfl := Except.ok.inj (hp.symm.trans hvw)
  have hav : a.same v = true := Scalar.same_of_exact (by rw [hv, hx]; ring)
  have hbw : b.same w = true := Scalar.same_of_exact (by rw [hw, hy]; ring)
  simp [Value.pair, Value.same, Value.sameItems, Value.asNumber?, hav, hbw]

/-- A position that has been cut to its coordinates is a pair. -/
theorem eq_pair_of_firstTwo {v p : Value R} (h : v.firstTwo = .ok p) (hp : IsPosition p) :
    ∃ x y, p = Value.pair x y := by
  obtain ⟨a, -, h⟩ := bind_eq_ok.1 h
  obtain ⟨b, -, h⟩ := bind_eq_ok.1 h
  cases h
  obtain ⟨x, y, hpair | hpair, -⟩ := hp
  · exact ⟨x, y, hpair⟩
  · cases hpair

namespace Diagram

/-- The anchor of a label is a point of the plane. -/
theorem Sound.isNumberPair_anchor {d : Diagram R} (h : d.Sound) {l : Label R}
    (hl : .label l ∈ d.labels.values) {b : Binding R} (hb : l.bound? = .ok (some b)) {e : Element R}
    (he : lookUp d.edges b.target = .ok e) {p : Value R}
    (hp : (anchorPoint e b.anchor).result = .ok p) : IsNumberPair p := by
  obtain ⟨n, hn⟩ := h.orderly
  obtain ⟨hsound, htied⟩ := h.label hl
  obtain ⟨b', hb', hbinding⟩ := hsound.binding
  obtain rfl : b' = some b := Except.ok.inj (hb'.symm.trans hb)
  obtain ⟨k, e', hk, hfind, hm⟩ := hn.edge_of_isLive (htied.isLive hb)
  obtain rfl : .edge e' = e := Except.ok.inj ((lookUp_eq_ok.2 ⟨k, hk, hfind⟩).symm.trans he)
  obtain ⟨x, y, hxy⟩ := anchorPoint_real (h.edge hm) (hbinding b rfl).anchor
  obtain rfl := Except.ok.inj (hp.symm.trans hxy)
  exact isNumberPair_pair _ _

/-- With exact numbers a label that is moved is found again where it has been moved to. -/
theorem Sound.movesExactly_exact {d : Diagram Exact} (h : d.Sound) (q : Request Exact) :
    d.movesExactly q = true := by
  unfold movesExactly
  split
  case h_2 => rfl
  rename_i id position
  split
  case h_2 => rfl
  rename_i l requested p hmoved hr
  -- The position has passed the check of the label.
  rw [outcome_moveLabel] at hmoved
  obtain ⟨hl, -⟩ := written_eq_ok.1 (Prod.ext hmoved rfl)
  obtain ⟨old, requested', binding, -, hr', -, rfl, hc⟩ := of_movedLabel hl
  obtain ⟨a, b, rfl⟩ := eq_pair_of_firstTwo hr' (Label.check_eq_ok.1 hc).position
  obtain ⟨l, hl, hr⟩ := bind_eq_ok.1 hr
  obtain ⟨requested'', hr'', hr⟩ := bind_eq_ok.1 hr
  obtain rfl := Except.ok.inj (hr''.symm.trans hr')
  obtain ⟨bound, hb, hr⟩ := bind_eq_ok.1 hr
  cases bound with
  | none => cases hr
  | some binding =>
    obtain ⟨e, he, hr⟩ := bind_eq_ok.1 hr
    obtain ⟨anchor, hanchor, hr⟩ := bind_eq_ok.1 hr
    obtain ⟨difference, hd, hr⟩ := bind_eq_ok.1 hr
    obtain ⟨sum, hsum, hr⟩ := bind_eq_ok.1 hr
    cases hr
    have hpair := h.isNumberPair_anchor (h.mem_of_labelUnder hl) hb he hanchor
    exact same_of_add_sub hpair hd hsum

theorem Sound.runsExactly_exact : ∀ {d : Diagram Exact}, d.Sound → ∀ qs : List (Request Exact),
    d.runsExactly qs = true
  | _, _, [] => rfl
  | _, h, q :: qs => Bool.and_eq_true_iff.2 ⟨h.movesExactly_exact q, (h.after q).runsExactly_exact qs⟩

/-! ### An update of an edge -/

/-- A label of an edge may be stored elsewhere; nothing else of a label changes, and no other label. -/
def IsCarriedBy (edge : Value R) (x y : Value R × Element R) : Prop :=
  y.1 = x.1 ∧ ∃ l m, x.2 = .label l ∧ y.2 = .label m ∧ m = { l with position := m.position } ∧
    ((Element.label l).isBoundTo edge = false → m.position = l.position)

/-- Under an id an edge has been replaced by `e`, and labels bound to it may be stored elsewhere.
Everything else is as it was. -/
structure RevisesEdge (id : Value R) (e : Edge R) (d t : Diagram R) : Prop where
  points_eq : t.points = d.points
  ellipses_eq : t.ellipses = d.ellipses
  next_eq : t.next = d.next
  edges : ∃ before k old after, k.key? = id.key? ∧
    d.edges.entries = before ++ (k, .edge old) :: after ∧
    t.edges.entries = before ++ (k, .edge e) :: after
  labels : List.Forall₂ (IsCarriedBy id) d.labels.entries t.labels.entries

theorem isCarriedBy_rested (d : Diagram R) (edge : Value R) (id : Value R) (l : Label R) :
    IsCarriedBy edge (id, .label l) (id, d.rested edge (fun binding => binding) (.label l)) := by
  refine ⟨rfl, ?_⟩
  rw [rested_label]
  split
  · rename_i hbound
    exact ⟨l, _, rfl, rfl, rfl, fun hfree => absurd hbound (by simp [hfree])⟩
  · exact ⟨l, l, rfl, rfl, rfl, fun _ => rfl⟩

theorem Sound.revisesEdge {d : Diagram R} (h : d.Sound) {id : Value R}
    {changes : List (String × Value R)} {e : Edge R} {t : Diagram R}
    (ht : (Diagram.updateEdge id changes).outcome d = (.ok e, t)) : RevisesEdge id e d t := by
  obtain ⟨n, hn⟩ := h.orderly
  obtain ⟨hc, rfl⟩ := h.of_updateEdge ht
  refine ⟨rfl, rfl, rfl, ?_, ?_⟩
  · obtain ⟨old, hold, -⟩ := bind_eq_ok.1 hc
    obtain ⟨i, -, hi, hid, hm⟩ := hn.of_lookUp (s := .edges) hold
    obtain ⟨before, after, hsplit⟩ := List.append_of_mem hm
    rw [← hi] at hsplit
    have hkey : id.key? = old.id.key? := by rw [hid, hi, key?_int]
    have hadm := hn.admits (s := .edges) (List.mem_map_of_mem (f := Prod.snd) hm)
    cases old with
    | edge old =>
      refine ⟨before, old.id, old, after, hkey.symm, hsplit, ?_⟩
      exact congrArg Collection.entries (hn.insert_eq (s := .edges) hsplit hkey)
    | _ => cases hadm
  · show List.Forall₂ _ d.labels.entries (d.labels.entries.map _)
    rw [List.forall₂_map_right_iff, List.forall₂_same]
    intro x hx
    obtain ⟨l, hl⟩ := h.exists_label (List.mem_map_of_mem (f := Prod.snd) hx)
    have hcarried := isCarriedBy_rested (d.replaceEdge id e) id x.1 l
    rwa [← hl] at hcarried

/-! ### In every diagram that can be reached -/

/-- After every run in which labels are moved exactly, each label is stored where it stands; with exact
numbers every run is of this kind.  After any run, an update of an edge that succeeds replaces the edge
and at most stores its own labels elsewhere. -/
theorem run_current {start : Diagram R} (hs : start.IsStart) (qs : List (Request R)) :
    (start.runsExactly qs = true → (start.run qs).Current) ∧
    (∀ d : Diagram Exact, d.IsStart → ∀ rs, d.runsExactly rs = true) ∧
    ∀ id changes e t, (updateEdge id changes).outcome (start.run qs) = (.ok e, t) →
      RevisesEdge id e (start.run qs) t := by
  have hsound : (start.run qs).Sound := hs.sound.run qs
  refine ⟨hs.sound.current_run hs.current qs, fun d hd rs => hd.sound.runsExactly_exact rs, ?_⟩
  intro id changes e t ht
  exact hsound.revisesEdge ht

/-- A label is bound to an edge and then moved along the axis. -/
def movedRequests : List (Request Float) := tiedRequests 5 ++ [.moveLabel (.int 2) (alongAxis 7)]

/-- The edge of a label that has been moved is changed. -/
theorem run_current_tied : (empty : Diagram Float).IsStart ∧
    (empty : Diagram Float).runsExactly movedRequests = true ∧
    ((empty : Diagram Float).run movedRequests).Current ∧
    ∃ e t, (updateEdge (.int 1) [("end", alongAxis 100)]).outcome
        ((empty : Diagram Float).run movedRequests) = (.ok e, t) ∧
      RevisesEdge (.int 1) e ((empty : Diagram Float).run movedRequests) t := by
  have hs : (empty : Diagram Float).IsStart := .inl rfl
  have hexact : (empty : Diagram Float).runsExactly movedRequests = true := by decide +kernel
  have hok : ((updateEdge (.int 1) [("end", alongAxis 100)]).outcome
      ((empty : Diagram Float).run movedRequests)).1.isOk = true := by decide +kernel
  obtain ⟨e, he⟩ := exists_of_isOk hok
  obtain ⟨hcurrent, -, hrevises⟩ := run_current hs movedRequests
  exact ⟨hs, hexact, hcurrent hexact, e, _, Prod.ext he rfl, hrevises _ _ _ _ (Prod.ext he rfl)⟩

/-- A tenth is not kept exactly beside a million. -/
example : (empty : Diagram Float).runsExactly
    [.createEdge (.text "straight") (alongAxis 1000000) (alongAxis 1000000) .none .none,
     .createLabel (alongAxis 0) (.text "p") (Binding.value ⟨.int 1, .text "mid", alongAxis 0⟩),
     .moveLabel (.int 2) (.tuple [.real (Arithmetic.ofDecimal 1 (-1)), realNumber 0])] = false := by
  decide +kernel

end Diagram

end FeynmanTikz
