/-
Edits of different elements do not get in each other's way.

An update of an edge and its deletion both go on to the labels of that edge, which are kept together
with those of all other edges.  Still they can be exchanged with an update or a deletion of another
edge: a label follows one edge only, and neither its place among the labels nor what is checked
depends on any other edge.

* `Diagram.Commute`: two edits have the same outcomes in either order,
* `EdgeCall`: an update or the deletion of an edge,
* `revise`, `Sound.call`: what such a call comes to depends on nothing but the edge itself,
* `Sound.rested_comm`: labels of one edge are put where they stand before or after those of another,
* `Sound.commute`: calls on different edges commute,
* `Outlives`, `Sound.delete_delete`: deletions of any two elements lead to the same diagram,
* `run_commute`: both, in every diagram that can be reached,
* `deletions_differ`: a label and its edge, which do not come back alike in either order.

Design notes.
* A deletion answers with the element as it was stored at that moment.  A label that is deleted after
  its edge has been released by then, so deletions of the two are exchanged up to this answer.
* Labels of an edge are compared with those in a diagram that has no other edge, `alone`.
-/
import FeynmanTikz.Proofs.Diagram.Effects

namespace FeynmanTikz

open Edit

variable {R : Type} [Arithmetic R]

/-- A call on an edge. -/
inductive EdgeCall (R : Type) where
  | update (changes : List (String × Value R))
  | delete

namespace Diagram

/-- Two edits have the same results and lead to the same diagram, whichever comes first. -/
def Commute {α β : Type} (d : Diagram R) (f : Mutation R α) (g : Mutation R β) : Prop :=
  (f.outcome (g.outcome d).2).1 = (f.outcome d).1 ∧
    (g.outcome (f.outcome d).2).1 = (g.outcome d).1 ∧
    (g.outcome (f.outcome d).2).2 = (f.outcome (g.outcome d).2).2

/-- Makes a call on the edge under an id. -/
def call (id : Value R) : EdgeCall R → Mutation R (Element R)
  | .update changes => do return .edge (← updateEdge id changes)
  | .delete => delete id

/-! ### Labels of different edges -/

/-- The diagram that has no element but an edge. -/
def alone (id : Value R) (e : Edge R) : Diagram R := { edges := ⟨[(id, .edge e)]⟩ }

/-- The edges of a diagram after one of them has been replaced or deleted, and its labels put where
they stand beside the edge `e`: the new one, or the one that has been deleted. -/
def revise (d : Diagram R) (id : Value R) (e : Edge R) (kept : Bool) : Diagram R :=
  { d with
    edges := if kept then d.edges.insert id (.edge e) else d.edges.erase ⟨id.keyParts⟩
    labels := d.labels.mapValues
      ((alone id e).rested id fun binding => if kept then binding else .none) }

theorem find?_alone {id : Value R} {k : Key} (hid : id.key? = some k) (e : Edge R) :
    (alone id e).edges.find? k = some (.edge e) := by
  simp [alone, Collection.find?, hid]

theorem isBoundTo_rested {d : Diagram R} {a b : Value R} {rebind : Value R → Value R}
    (hr : ∀ v, rebind v = v ∨ rebind v = .none) {x : Element R} (hx : x.isBoundTo b = false) :
    (d.rested a rebind x).isBoundTo b = false := by
  cases x with
  | label l =>
    rw [rested_label]
    split
    · -- The binding is the one from before, or none.
      rcases hr l.binding with h | h
      · rw [h]
        exact hx
      · rw [h]
        rfl
    · exact hx
  | _ => rfl

/-- If no label is bound to both of two edges, the labels of one and those of the other are put where
they stand in either order. -/
theorem rested_comm {d t : Diagram R} {a b : Value R} {rebind rebind' : Value R → Value R}
    (hr : ∀ v, rebind v = v ∨ rebind v = .none) (hr' : ∀ v, rebind' v = v ∨ rebind' v = .none)
    {x : Element R} (hx : x.isBoundTo a = true → x.isBoundTo b = false) :
    d.rested a rebind (t.rested b rebind' x) = t.rested b rebind' (d.rested a rebind x) := by
  cases ha : x.isBoundTo a with
  | false => rw [rested_of_not_bound ha, rested_of_not_bound (isBoundTo_rested hr' ha)]
  | true =>
    have hb := hx ha
    rw [rested_of_not_bound hb, rested_of_not_bound (isBoundTo_rested hr hb)]

omit [Arithmetic R] in
theorem rebinds (kept : Bool) (v : Value R) :
    (if kept then v else .none) = v ∨ (if kept then v else .none) = (.none : Value R) := by
  cases kept
  · exact .inr rfl
  · exact .inl rfl

namespace Sound

variable {d t : Diagram R} {a b id : Value R} {i j : Int}

/-- Whatever a label is bound to has a whole number for an id. -/
theorem key?_target (h : d.Sound) {l : Label R} (hl : .label l ∈ d.labels.values) {b : Binding R}
    (hb : l.bound? = .ok (some b)) : ∃ j, b.target.key? = some (intKey j) := by
  obtain ⟨n, hn⟩ := h.orderly
  obtain ⟨k, hk, hlive⟩ := (h.label hl).2.isLive hb
  obtain ⟨v, hv, hkv⟩ := Collection.contains_iff.1 hlive
  obtain ⟨j, -, rfl⟩ := hn.id_eq (s := .edges) hv
  exact ⟨j, by rw [hk, ← hkv, key?_int]⟩

/-- A label is bound to one edge only. -/
theorem isBoundTo_eq_false_of_ne (h : d.Sound) {x : Element R} (hx : x ∈ d.labels.values)
    (ha : a.key? = some (intKey i)) (hb : b.key? = some (intKey j)) (hne : i ≠ j)
    (hxa : x.isBoundTo a = true) : x.isBoundTo b = false := by
  obtain ⟨l, rfl⟩ := h.exists_label hx
  obtain ⟨bound, hbound, -⟩ := (h.label hx).1.binding
  rw [Label.isBoundTo_of_bound hbound] at hxa ⊢
  cases bound with
  | none => rfl
  | some binding =>
    obtain ⟨m, hm⟩ := h.key?_target hx hbound
    rw [Option.any_some] at hxa ⊢
    obtain rfl := (same_iff_of_key? hm ha).1 hxa
    rw [Bool.eq_false_iff]
    exact fun hsame => hne ((same_iff_of_key? hm hb).1 hsame)

/-- Where the labels of an edge stand depends on this edge alone. -/
theorem rested_eq (h : d.Sound) {x : Element R} (hx : x ∈ d.labels.values)
    (hid : id.key? = some (intKey i)) {u : Diagram R}
    (hfind : t.edges.find? (intKey i) = u.edges.find? (intKey i)) (rebind : Value R → Value R) :
    t.rested id rebind x = u.rested id rebind x := by
  obtain ⟨l, rfl⟩ := h.exists_label hx
  rw [rested_label, rested_label]
  split
  · rename_i hbound
    have hresolve : (t.resolve l).result = (u.resolve l).result := by
      refine resolve_eq_of_find? fun b k hb hk => ?_
      obtain ⟨m, hm⟩ := h.key?_target hx hb
      rw [Label.isBoundTo_of_bound hb, Option.any_some, same_iff_of_key? hm hid] at hbound
      obtain rfl : k = intKey i := by
        rw [← hbound]
        exact Except.ok.inj (hk.symm.trans (expectKey_of_key? hm))
      exact hfind
    unfold standing
    rw [hresolve]
  · rfl

/-- What is found among the edges is one, stored under its id. -/
theorem mem_of_find? (h : d.Sound) {s : Shelf} {e : Element R}
    (he : (d.shelf s).find? (intKey i) = some e) : e ∈ (d.shelf s).values ∧ e.id = .int i := by
  obtain ⟨n, hn⟩ := h.orderly
  obtain ⟨j, hj, -, hm⟩ := hn.of_find? he
  obtain rfl := intKey_inj.1 hj
  exact ⟨List.mem_map_of_mem (f := Prod.snd) hm, ((hn.own s _ hm).1).symm⟩

end Sound

/-! ### Calls on an edge -/

/-- A call on an edge is refused in every diagram that has the edge, or comes to the same in each. -/
theorem outcome_call (q : EdgeCall R) {id : Value R} {i : Int} (hid : id.key? = some (intKey i))
    (x : Edge R) :
    (∃ f, ∀ d : Diagram R, d.Sound → d.edges.find? (intKey i) = some (.edge x) →
      (call id q).outcome d = (.error f, d)) ∨
    ∃ e x' kept, ∀ d : Diagram R, d.Sound → d.edges.find? (intKey i) = some (.edge x) →
      (call id q).outcome d = (.ok e, d.revise id x' kept) := by
  cases q with
  | update changes =>
    have hfound {d : Diagram R} (hd : d.edges.find? (intKey i) = some (.edge x)) :
        d.changedEdgeUnder id changes = (alone id x).changedEdgeUnder id changes := by
      unfold changedEdgeUnder
      rw [lookUp_eq_ok.2 ⟨_, expectKey_of_key? hid, hd⟩,
        lookUp_eq_ok.2 ⟨_, expectKey_of_key? hid, find?_alone hid x⟩]
    rcases hc : (alone id x).changedEdgeUnder id changes with f | e
    · refine .inl ⟨f, fun d _ hd => outcome_bind_error ?_⟩
      rw [outcome_updateEdge, hfound hd, hc]
    · refine .inr ⟨.edge e, e, true, fun d h hd => ?_⟩
      have he : d.changedEdgeUnder id changes = .ok e := (hfound hd).trans hc
      refine (outcome_bind_ok (h.outcome_updateEdge_eq he)).trans (congrArg (Prod.mk _) ?_)
      -- Beside the new edge the labels stand where they stand if it is the only one.
      have hlabels : d.labels.mapValues ((d.replaceEdge id e).rested id fun binding => binding) =
          d.labels.mapValues ((alone id e).rested id fun binding => binding) := by
        refine Collection.mapValues_congr fun y hy => h.rested_eq hy hid ?_ _
        rw [find?_alone hid]
        show (d.edges.insert id _).find? _ = _
        rw [Collection.find?_insert, if_pos hid]
      exact congrArg (fun labels => { d.replaceEdge id e with labels := labels }) hlabels
  | delete =>
    refine .inr ⟨.edge x, x, false, fun d h hd => ?_⟩
    obtain ⟨hx, hxid⟩ := h.mem_of_find? (s := .edges) hd
    have hkey : id.key? = (Element.edge x).id.key? := by rw [hid, hxid, key?_int]
    refine (h.outcome_delete_eq (s := .edges) hx hkey).trans (congrArg (Prod.mk _) ?_)
    have hlabels : d.labels.mapValues (d.rested id fun _ => .none) =
        d.labels.mapValues ((alone id x).rested id fun _ => .none) :=
      Collection.mapValues_congr fun y hy =>
        h.rested_eq hy hid (hd.trans (find?_alone hid x).symm) _
    exact congrArg
      (fun labels => { d with edges := d.edges.erase ⟨id.keyParts⟩, labels := labels }) hlabels

/-- Another edge is not concerned. -/
theorem find?_revise {d : Diagram R} {id : Value R} {i : Int} (hid : id.key? = some (intKey i))
    (e : Edge R) (kept : Bool) {k : Key} (hk : intKey i ≠ k) :
    (d.revise id e kept).edges.find? k = d.edges.find? k := by
  cases kept with
  | true =>
    show (d.edges.insert id _).find? k = _
    rw [Collection.find?_insert, if_neg]
    rw [hid]
    exact fun h => hk (Option.some.inj h)
  | false =>
    have hkey : (⟨id.keyParts⟩ : Key) = intKey i :=
      Option.some.inj ((key?_eq_keyParts hid).symm.trans hid)
    show (d.edges.erase ⟨id.keyParts⟩).find? k = _
    rw [hkey]
    exact Collection.find?_erase_of_ne hk.symm

namespace Sound

variable {d : Diagram R} {a b : Value R} {i j : Int}

theorem call (h : d.Sound) (id : Value R) (q : EdgeCall R) :
    AllOrNothing (Follows d) (call id q) d := by
  cases q with
  | update changes => exact (h.updateEdge id changes).bind_pure Element.edge
  | delete => exact h.delete id

/-- Different edges are replaced or deleted in either order. -/
theorem revise_comm (h : d.Sound) (ha : a.key? = some (intKey i)) (hb : b.key? = some (intKey j))
    (hne : i ≠ j) {x y : Edge R} (hx : d.edges.find? (intKey i) = some (.edge x))
    (hy : d.edges.find? (intKey j) = some (.edge y)) (e f : Edge R) (kept kept' : Bool) :
    (d.revise a e kept).revise b f kept' = (d.revise b f kept').revise a e kept := by
  have hkey : intKey i ≠ intKey j := fun hij => hne (intKey_inj.1 hij)
  have hka : (⟨a.keyParts⟩ : Key) = intKey i :=
    Option.some.inj ((key?_eq_keyParts ha).symm.trans ha)
  have hkb : (⟨b.keyParts⟩ : Key) = intKey j :=
    Option.some.inj ((key?_eq_keyParts hb).symm.trans hb)
  have hlabels : (d.revise a e kept |>.revise b f kept').labels =
      (d.revise b f kept' |>.revise a e kept).labels :=
    Collection.mapValues_comm fun z hz => rested_comm (rebinds kept') (rebinds kept)
      fun hzb => h.isBoundTo_eq_false_of_ne hz hb ha hne.symm hzb
  have hedges : (d.revise a e kept |>.revise b f kept').edges =
      (d.revise b f kept' |>.revise a e kept).edges := by
    have hmem {k : Key} {z : Element R} (hz : d.edges.find? k = some z) :
        ∃ v ∈ d.edges.ids, v.key? = some k :=
      Collection.contains_iff.1 (Option.isSome_iff_exists.2 ⟨z, hz⟩)
    unfold revise
    rw [hka, hkb]
    cases kept <;> cases kept'
    · exact Collection.erase_comm _ _ _
    · exact (Collection.insert_erase_comm _ _ hb hkey.symm).symm
    · exact Collection.insert_erase_comm _ _ ha hkey
    · exact Collection.insert_comm _ _ ha hb hkey (hmem hx) (hmem hy)
  show ({ d.revise a e kept |>.revise b f kept' with
    edges := (d.revise a e kept |>.revise b f kept').edges
    labels := (d.revise a e kept |>.revise b f kept').labels } : Diagram R) = _
  rw [hlabels, hedges]
  rfl

/-- Calls on different edges commute. -/
theorem commute (h : d.Sound) (ha : a.key? = some (intKey i)) (hb : b.key? = some (intKey j))
    (hne : i ≠ j) {x y : Edge R} (hx : d.edges.find? (intKey i) = some (.edge x))
    (hy : d.edges.find? (intKey j) = some (.edge y)) (q r : EdgeCall R) :
    d.Commute (Diagram.call a q) (Diagram.call b r) := by
  have hkey : intKey i ≠ intKey j := fun hij => hne (intKey_inj.1 hij)
  have hq := h.call a q
  have hr := h.call b r
  unfold Commute
  rcases outcome_call q ha x with ⟨f, hf⟩ | ⟨e, x', kept, he⟩
  · -- The first call is refused, before the second one and after it.
    rw [hf d h hx]
    rcases outcome_call r hb y with ⟨g, hg⟩ | ⟨e', y', kept', he'⟩
    · rw [hg d h hy, hf d h hx]
      exact ⟨rfl, rfl, rfl⟩
    · have hs := hr.keeps h fun t ht => ht.sound
      rw [he' d h hy] at hs ⊢
      rw [hf _ hs ((find?_revise hb y' kept' hkey.symm).trans hx)]
      exact ⟨rfl, rfl, rfl⟩
  · have hs := hq.keeps h fun t ht => ht.sound
    rw [he d h hx] at hs ⊢
    have hy' : (d.revise a x' kept).edges.find? (intKey j) = some (.edge y) :=
      (find?_revise ha x' kept hkey).trans hy
    rcases outcome_call r hb y with ⟨g, hg⟩ | ⟨e', y', kept', he'⟩
    · rw [hg d h hy, hg _ hs hy', he d h hx]
      exact ⟨rfl, rfl, rfl⟩
    · have hs' := hr.keeps h fun t ht => ht.sound
      rw [he' d h hy] at hs' ⊢
      have hx' : (d.revise b y' kept').edges.find? (intKey i) = some (.edge x) :=
        (find?_revise hb y' kept' hkey.symm).trans hx
      rw [he _ hs' hx', he' _ hs hy', h.revise_comm ha hb hne hx hy]
      exact ⟨rfl, rfl, rfl⟩

end Sound

/-! ### Deletions of any elements -/

/-- What has become of an element when another one, under the id `other`, has been deleted: a label
that was bound to it stands where it stood and is bound to nothing, and the rest is as it was. -/
inductive Outlives (d : Diagram R) (other : Value R) : Element R → Element R → Prop
  | untouched {e : Element R} (h : e.isBoundTo other = false) : Outlives d other e e
  | released {l : Label R} {p : Value R} (h : (Element.label l).isBoundTo other = true)
      (hp : (d.resolve l).result = .ok p) :
      Outlives d other (.label l) (.label { l with position := p, binding := .none })

namespace Sound

variable {d : Diagram R} {a b : Value R} {s s' : Shelf} {x y : Element R}

theorem outlives (h : d.Sound) (hx : x ∈ (d.shelf s).values) (other : Value R) :
    Outlives d other x (d.rested other (fun _ => .none) x) := by
  obtain ⟨n, hn⟩ := h.orderly
  cases hbound : x.isBoundTo other with
  | false =>
    rw [rested_of_not_bound hbound]
    exact .untouched hbound
  | true =>
    cases x with
    | label l =>
      obtain rfl := hn.eq_labels hx
      rw [rested_label, if_pos hbound]
      exact .released hbound (h.resolve_standing hx)
    | _ => cases hbound

theorem sound_deleted (h : d.Sound) (hx : x ∈ (d.shelf s).values) (ha : a.key? = x.id.key?) :
    (d.deleted s a).Sound := by
  have hs := (h.delete a).keeps h fun t ht => ht.sound
  rwa [h.outcome_delete_eq hx ha] at hs

/-- Another element is still there after a deletion; if it is a label of the edge, it is released. -/
theorem mem_deleted (h : d.Sound) (hx : x ∈ (d.shelf s).values) (ha : a.key? = x.id.key?)
    (hy : y ∈ (d.shelf s').values) (hne : y.id.key? ≠ a.key?) :
    d.rested a (fun _ => .none) y ∈ ((d.deleted s a).shelf s').values := by
  obtain ⟨n, hn⟩ := h.orderly
  obtain ⟨z, hz, rfl⟩ := List.mem_map.1 hy
  unfold Collection.values
  rw [h.entries_deleted hx ha, List.map_map]
  refine List.mem_map.2 ⟨z, List.mem_filter.2 ⟨hz, ?_⟩, rfl⟩
  rw [(hn.own s' z hz).1]
  simpa using hne

theorem id_rested (d : Diagram R) (edge : Value R) (rebind : Value R → Value R) (e : Element R) :
    (d.rested edge rebind e).id = e.id := by
  cases e with
  | label l =>
    rw [rested_label]
    split <;> rfl
  | _ => rfl

/-- A deletion leaves the other edges where they are. -/
theorem find?_deleted {k : Key} (ha : a.key? = some ⟨a.keyParts⟩) (hk : a.key? ≠ some k) :
    (d.deleted s a).edges.find? k = d.edges.find? k := by
  have hshelf := shelf_onShelf (d.restLabels a fun _ => .none) s .edges (·.erase ⟨a.keyParts⟩)
  show ((d.deleted s a).shelf .edges).find? k = d.edges.find? k
  unfold deleted
  rw [hshelf]
  split
  · refine Collection.find?_erase_of_ne ?_
    rintro rfl
    exact hk ha
  · rfl

end Sound

omit [Arithmetic R] in
/-- A diagram is its collections and the next id. -/
theorem eq_of_shelf {d t : Diagram R} (h : ∀ s, (d.shelf s).entries = (t.shelf s).entries)
    (hn : d.next = t.next) : d = t := by
  have hshelf (s : Shelf) : d.shelf s = t.shelf s := congrArg Collection.mk (h s)
  obtain ⟨points, edges, ellipses, labels, next⟩ := d
  obtain rfl : points = t.points := hshelf .points
  obtain rfl : edges = t.edges := hshelf .edges
  obtain rfl : ellipses = t.ellipses := hshelf .ellipses
  obtain rfl : labels = t.labels := hshelf .labels
  obtain rfl : next = t.next := hn
  rfl

namespace Sound

variable {d : Diagram R} {a b : Value R} {s s' : Shelf} {x y : Element R}

/-- Labels of another edge stand after a deletion where they stood before. -/
theorem rested_deleted (h : d.Sound) (hx : x ∈ (d.shelf s).values) (ha : a.key? = x.id.key?)
    {j : Int} (hb : b.key? = some (intKey j)) (hne : a.key? ≠ b.key?) {t : Shelf} {e : Element R}
    (he : e ∈ ((d.deleted s a).shelf t).values) (rebind : Value R → Value R) :
    (d.deleted s a).rested b rebind e = d.rested b rebind e := by
  obtain ⟨n, hn⟩ := h.orderly
  have hs := h.sound_deleted hx ha
  obtain ⟨m, hm⟩ := hs.orderly
  obtain ⟨i, hi, -⟩ := hn.id_of_mem hx
  have hka : a.key? = some ⟨a.keyParts⟩ := key?_eq_keyParts (ha.trans (by rw [hi, key?_int]))
  cases e with
  | label l =>
    obtain rfl := hm.eq_labels he
    exact hs.rested_eq he hb (find?_deleted hka (by rwa [← hb])) rebind
  | _ => rfl

/-- The entries that are left after two deletions. -/
theorem entries_deleted_deleted (h : d.Sound) (hx : x ∈ (d.shelf s).values)
    (ha : a.key? = x.id.key?) (hy : y ∈ (d.shelf s').values) (hb : b.key? = y.id.key?)
    (hne : a.key? ≠ b.key?) (t : Shelf) :
    (((d.deleted s a).deleted s' b).shelf t).entries =
      (((d.shelf t).entries.filter fun z => z.1.key? ≠ a.key?).filter
        fun z => z.1.key? ≠ b.key?).map fun z =>
          (z.1, d.rested b (fun _ => .none) (d.rested a (fun _ => .none) z.2)) := by
  obtain ⟨n, hn⟩ := h.orderly
  obtain ⟨j, hj, -⟩ := hn.id_of_mem hy
  have hs := h.sound_deleted hx ha
  have hleft := h.mem_deleted hx ha hy (by rw [← hb]; exact hne.symm)
  rw [hs.entries_deleted hleft (by rw [id_rested, hb]), h.entries_deleted hx ha, List.filter_map,
    List.map_map]
  refine List.map_congr_left fun z hz => congrArg (Prod.mk z.1) ?_
  obtain ⟨hz, -⟩ := List.mem_filter.1 hz
  obtain ⟨hz, hza⟩ := List.mem_filter.1 hz
  have hmem : d.rested a (fun _ => .none) z.2 ∈ ((d.deleted s a).shelf t).values := by
    refine h.mem_deleted hx ha (List.mem_map_of_mem hz) ?_
    rw [← (hn.own t z hz).1]
    simpa using hza
  exact h.rested_deleted hx ha (by rw [hb, hj, key?_int]) hne hmem _

/-- Two elements are deleted in either order. -/
theorem deleted_comm (h : d.Sound) (hx : x ∈ (d.shelf s).values) (ha : a.key? = x.id.key?)
    (hy : y ∈ (d.shelf s').values) (hb : b.key? = y.id.key?) (hne : a.key? ≠ b.key?) :
    (d.deleted s a).deleted s' b = (d.deleted s' b).deleted s a := by
  obtain ⟨n, hn⟩ := h.orderly
  obtain ⟨i, hi, -⟩ := hn.id_of_mem hx
  obtain ⟨j, hj, -⟩ := hn.id_of_mem hy
  have hka : a.key? = some (intKey i) := by rw [ha, hi, key?_int]
  have hkb : b.key? = some (intKey j) := by rw [hb, hj, key?_int]
  refine eq_of_shelf (fun t => ?_) (by simp only [next_deleted])
  rw [h.entries_deleted_deleted hx ha hy hb hne, h.entries_deleted_deleted hy hb hx ha hne.symm,
    List.filter_comm]
  refine List.map_congr_left fun z hz => congrArg (Prod.mk z.1) ?_
  have hz : z.2 ∈ (d.shelf t).values :=
    List.mem_map_of_mem (List.mem_of_mem_filter (List.mem_of_mem_filter hz))
  refine rested_comm (fun _ => .inr rfl) (fun _ => .inr rfl) fun hzb => ?_
  have hlabel : z.2 ∈ d.labels.values := by
    cases hl : z.2 with
    | label l =>
      rw [hl] at hz
      obtain rfl := hn.eq_labels hz
      exact hz
    | _ =>
      rw [hl] at hzb
      cases hzb
  refine h.isBoundTo_eq_false_of_ne hlabel hkb hka ?_ hzb
  rintro rfl
  exact hne (hka.trans hkb.symm)

/-- The second of two deletions comes to what it would have come to as the first, but for the labels of
an edge that has been deleted. -/
theorem delete_deleted (h : d.Sound) (hx : x ∈ (d.shelf s).values) (ha : a.key? = x.id.key?)
    (hy : y ∈ (d.shelf s').values) (hb : b.key? = y.id.key?) (hne : a.key? ≠ b.key?) :
    (Diagram.delete b).outcome (d.deleted s a) =
      (.ok (d.rested a (fun _ => .none) y), (d.deleted s a).deleted s' b) := by
  have hleft := h.mem_deleted hx ha hy (by rw [← hb]; exact hne.symm)
  exact (h.sound_deleted hx ha).outcome_delete_eq hleft (by rw [id_rested, hb])

end Sound

/-- Deletions of two elements in either order: both succeed, the diagram is the same in the end, and
the one that comes second answers with what has become of its element. -/
def DeletionsAgree (d : Diagram R) (a b : Value R) (x y : Element R) : Prop :=
  ∃ d₁ d₂ t x' y',
    (Diagram.delete a).outcome d = (.ok x, d₁) ∧ (Diagram.delete b).outcome d₁ = (.ok y', t) ∧
    (Diagram.delete b).outcome d = (.ok y, d₂) ∧ (Diagram.delete a).outcome d₂ = (.ok x', t) ∧
    Outlives d a y y' ∧ Outlives d b x x'

theorem Sound.deletionsAgree {d : Diagram R} (h : d.Sound) {a b : Value R} {x y : Element R}
    (ha : d.element a = .ok x) (hb : d.element b = .ok y) (hne : a.key? ≠ b.key?) :
    d.DeletionsAgree a b x y := by
  obtain ⟨s, hx, ha⟩ := h.of_element ha
  obtain ⟨s', hy, hb⟩ := h.of_element hb
  have hsecond := h.delete_deleted hy hb hx ha hne.symm
  rw [h.deleted_comm hy hb hx ha hne.symm] at hsecond
  exact ⟨_, _, _, _, _, h.outcome_delete_eq hx ha, h.delete_deleted hx ha hy hb hne,
    h.outcome_delete_eq hy hb, hsecond, h.outlives hy a, h.outlives hx b⟩

/-! ### In every diagram that can be reached -/

/-- The edge under an id is found among the edges. -/
theorem Sound.find?_of_element {d : Diagram R} (h : d.Sound) {id : Value R} {e : Edge R}
    (he : d.element id = .ok (.edge e)) :
    ∃ i, id.key? = some (intKey i) ∧ d.edges.find? (intKey i) = some (.edge e) := by
  obtain ⟨n, hn⟩ := h.orderly
  obtain ⟨s, hs, hid⟩ := h.of_element he
  have hadm := hn.admits hs
  obtain ⟨i, hi, -⟩ := hn.id_of_mem hs
  have hk : (Element.edge e).id.key? = some (intKey i) := by rw [hi, key?_int]
  cases s with
  | edges => exact ⟨i, hid.trans hk, hn.find?_of_mem hs hk⟩
  | _ => cases hadm

/-- After any run, updates and deletions of two different edges have the same outcomes and lead to the
same diagram in either order, whether they are refused or not.  Deletions of any two different
elements both succeed and lead to the same diagram in either order, and answer with the same elements,
but for a label whose edge has been deleted before. -/
theorem run_commute {start : Diagram R} (hs : start.IsStart) (qs : List (Request R)) {a b : Value R}
    {x y : Element R} (ha : (start.run qs).element a = .ok x) (hb : (start.run qs).element b = .ok y)
    (hne : a.key? ≠ b.key?) :
    (∀ e f, x = .edge e → y = .edge f → ∀ q r : EdgeCall R,
      (start.run qs).Commute (Diagram.call a q) (Diagram.call b r)) ∧
    (start.run qs).DeletionsAgree a b x y := by
  have hsound : (start.run qs).Sound := hs.sound.run qs
  refine ⟨?_, hsound.deletionsAgree ha hb hne⟩
  rintro e f rfl rfl q r
  obtain ⟨i, hi, hx⟩ := hsound.find?_of_element ha
  obtain ⟨j, hj, hy⟩ := hsound.find?_of_element hb
  refine hsound.commute hi hj ?_ hx hy q r
  rintro rfl
  exact hne (hi.trans hj.symm)

/-- An edge with a label, and another edge. -/
def pairedRequests : List (Request Float) :=
  tiedRequests 5 ++ [.createEdge (.text "straight") (alongAxis 0) (alongAxis 9) .none .none]

/-- The edge an answer consists of. -/
def edgeOf? : Except (Fault R) (Element R) → Option (Edge R)
  | .ok (.edge e) => some e
  | _ => none

omit [Arithmetic R] in
theorem eq_edge_of_edgeOf? {r : Except (Fault R) (Element R)} (h : (edgeOf? r).isSome = true) :
    ∃ e, r = .ok (.edge e) := by
  rcases r with f | (p | e | el | l)
  case ok.edge => exact ⟨e, rfl⟩
  all_goals cases h

/-- Calls on the two edges, and the deletions of an edge and its label. -/
theorem run_commute_paired : (empty : Diagram Float).IsStart ∧
    (∃ e f, ((empty : Diagram Float).run pairedRequests).element (.int 1) = .ok (.edge e) ∧
      ((empty : Diagram Float).run pairedRequests).element (.int 3) = .ok (.edge f) ∧
      ∀ q r : EdgeCall Float, ((empty : Diagram Float).run pairedRequests).Commute
        (Diagram.call (.int 1) q) (Diagram.call (.int 3) r)) ∧
    ∃ x y, ((empty : Diagram Float).run pairedRequests).DeletionsAgree (.int 1) (.int 2) x y := by
  have hs : (empty : Diagram Float).IsStart := .inl rfl
  have hkey {i j : Int} (h : i ≠ j) :
      (Value.int i : Value Float).key? ≠ (Value.int j : Value Float).key? := by
    rw [key?_int, key?_int]
    exact fun hij => h (intKey_inj.1 (Option.some.inj hij))
  have hfirst : (edgeOf? (((empty : Diagram Float).run pairedRequests).element (.int 1))).isSome =
      true := by
    decide +kernel
  have hthird : (edgeOf? (((empty : Diagram Float).run pairedRequests).element (.int 3))).isSome =
      true := by
    decide +kernel
  have hlabel : (((empty : Diagram Float).run pairedRequests).element (.int 2)).isOk = true := by
    decide +kernel
  obtain ⟨e, he⟩ := eq_edge_of_edgeOf? hfirst
  obtain ⟨f, hf⟩ := eq_edge_of_edgeOf? hthird
  obtain ⟨y, hy⟩ := exists_of_isOk hlabel
  obtain ⟨hcalls, -⟩ := run_commute hs pairedRequests he hf (hkey (by decide))
  obtain ⟨-, hdeletions⟩ := run_commute hs pairedRequests he hy (hkey (by decide))
  exact ⟨hs, ⟨e, f, he, hf, hcalls e f rfl rfl⟩, _, y, hdeletions⟩

/-- Whether an answer is a label that is bound. -/
def isBoundLabel : Except (Fault R) (Element R) → Bool
  | .ok (.label l) => l.binding.isSome
  | _ => false

/-- A label that is deleted before its edge comes back bound, and one that is deleted after it comes
back released. -/
theorem deletions_differ : (empty : Diagram Float).IsStart ∧
    (∃ x, ((empty : Diagram Float).run (tiedRequests 5)).element (.int 1) = .ok x) ∧
    (∃ y, ((empty : Diagram Float).run (tiedRequests 5)).element (.int 2) = .ok y) ∧
    ¬((empty : Diagram Float).run (tiedRequests 5)).Commute
      (Diagram.delete (.int 1)) (Diagram.delete (.int 2)) := by
  have hedge : (((empty : Diagram Float).run (tiedRequests 5)).element (.int 1)).isOk = true := by
    decide +kernel
  have hlabel : (((empty : Diagram Float).run (tiedRequests 5)).element (.int 2)).isOk = true := by
    decide +kernel
  refine ⟨.inl rfl, exists_of_isOk hedge, exists_of_isOk hlabel, fun hcommute => ?_⟩
  have hfirst : isBoundLabel ((Diagram.delete (.int 2)).outcome
      ((empty : Diagram Float).run (tiedRequests 5))).1 = true := by
    decide +kernel
  have hsecond : isBoundLabel ((Diagram.delete (.int 2)).outcome ((Diagram.delete (.int 1)).outcome
      ((empty : Diagram Float).run (tiedRequests 5))).2).1 = false := by
    decide +kernel
  rw [hcommute.2.1, hfirst] at hsecond
  cases hsecond

end Diagram

end FeynmanTikz
