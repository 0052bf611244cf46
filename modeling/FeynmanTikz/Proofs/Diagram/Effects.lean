/-
What happens to the labels of an edge.

An update of an edge goes on to the labels that are bound to it, and so does a deletion.  Such a loop
finds its labels one by one under their ids.  What it comes to is one change of all of them at once:

* `Diagram.standing`: where a label stands, as a function,
* `Diagram.rested`: a label of an edge where it stands, and any other element as it is,
* `Rests.eachBound_eq`: a loop over the labels of an edge changes every label in this way,
* `Sound.outcome_updateEdge_eq` and `Sound.outcome_delete_eq`: what an update of an edge and a deletion
  come to,
* `Sound.resolve_deleted`: no label stands elsewhere after a deletion.
-/
import FeynmanTikz.Proofs.Diagram.Atomicity

namespace FeynmanTikz

open Edit

variable {R : Type} [Arithmetic R]

/-- A value that can be found again has its parts for a key. -/
theorem key?_eq_keyParts {v : Value R} {k : Key} (h : v.key? = some k) :
    v.key? = some ⟨v.keyParts⟩ := by
  unfold Value.key? at h ⊢
  split at h
  · rw [if_pos ‹_›]
  · cases h

/-- Whether an element is a label that is bound to an edge. -/
def Element.isBoundTo (edge : Value R) : Element R → Bool
  | .label l =>
    match l.bound? with
    | .ok (some b) => b.target.same edge
    | _ => false
  | _ => false

theorem Label.isBoundTo_of_bound {l : Label R} {b : Option (Binding R)} (hb : l.bound? = .ok b)
    (edge : Value R) : (Element.label l).isBoundTo edge = b.any (·.target.same edge) := by
  unfold Element.isBoundTo
  dsimp only
  rw [hb]
  cases b <;> rfl

namespace Diagram

/-- Where a label stands.  Should that fail to be told, it is where it was. -/
def standing (d : Diagram R) (l : Label R) : Value R :=
  match (d.resolve l).result with
  | .ok p => p
  | .error _ => l.position

/-- A label of an edge where it stands, with a change of its binding; any other element as it is. -/
def rested (d : Diagram R) (edge : Value R) (rebind : Value R → Value R) : Element R → Element R
  | .label l =>
    if (Element.label l).isBoundTo edge then
      .label { l with position := d.standing l, binding := rebind l.binding }
    else .label l
  | e => e

/-- The diagram with all labels of an edge put where they stand. -/
def restLabels (d : Diagram R) (edge : Value R) (rebind : Value R → Value R) : Diagram R :=
  { d with labels := d.labels.mapValues (d.rested edge rebind) }

theorem rested_label (d : Diagram R) (edge : Value R) (rebind : Value R → Value R) (l : Label R) :
    d.rested edge rebind (.label l) = if (Element.label l).isBoundTo edge then
      .label { l with position := d.standing l, binding := rebind l.binding } else .label l := rfl

theorem rested_of_not_bound {d : Diagram R} {edge : Value R} {rebind : Value R → Value R}
    {e : Element R} (h : e.isBoundTo edge = false) : d.rested edge rebind e = e := by
  cases e with
  | label l => rw [rested_label, if_neg (by simp [h])]
  | _ => rfl

theorem rested_congr {d t : Diagram R} (h : t.edges = d.edges) (edge : Value R)
    (rebind : Value R → Value R) : t.rested edge rebind = d.rested edge rebind := by
  funext e
  cases e with
  | label l =>
    have hs : t.standing l = d.standing l := by
      unfold standing
      rw [resolve_congr h]
    rw [rested_label, rested_label, hs]
  | _ => rfl

theorem shelf_restLabels {d : Diagram R} {edge : Value R} {rebind : Value R → Value R} {s : Shelf}
    (hs : s ≠ .labels) : (d.restLabels edge rebind).shelf s = d.shelf s := by
  cases s with
  | labels => exact absurd rfl hs
  | _ => rfl

theorem ids_restLabels (d : Diagram R) (edge : Value R) (rebind : Value R → Value R) (s : Shelf) :
    ((d.restLabels edge rebind).shelf s).ids = (d.shelf s).ids := by
  cases s with
  | labels => exact Collection.ids_mapValues _ _
  | _ => rfl

/-! ### What is stored under an id -/

namespace Orderly

variable {d : Diagram R} {n : Int}

/-- What is stored is found under its id, in whatever form the id is given. -/
theorem find?_of_mem (h : d.Orderly n) {s : Shelf} {e : Element R} (he : e ∈ (d.shelf s).values)
    {k : Key} (hk : e.id.key? = some k) : (d.shelf s).find? k = some e := by
  obtain ⟨x, hx, rfl⟩ := List.mem_map.1 he
  refine Collection.find?_of_mem (h.nodup_keys s) hx ?_
  rwa [(h.own s x hx).1]

/-- Every element is stored under a whole number. -/
theorem id_of_mem (h : d.Orderly n) {s : Shelf} {e : Element R} (he : e ∈ (d.shelf s).values) :
    ∃ i, e.id = .int i ∧ Value.int i ∈ (d.shelf s).ids := by
  have hm : e.id ∈ (d.shelf s).ids := by
    rw [← h.map_id_values s]
    exact List.mem_map_of_mem he
  obtain ⟨i, -, hi⟩ := h.id_eq hm
  exact ⟨i, hi, hi ▸ hm⟩

theorem lookUp_of_mem (h : d.Orderly n) {s : Shelf} {e : Element R} (he : e ∈ (d.shelf s).values)
    {id : Value R} (hid : id.key? = e.id.key?) : lookUp (d.shelf s) id = .ok e := by
  obtain ⟨i, hi, -⟩ := h.id_of_mem he
  have hk : e.id.key? = some (intKey i) := by rw [hi, key?_int]
  exact lookUp_eq_ok.2 ⟨_, expectKey_of_key? (hid.trans hk), h.find?_of_mem he hk⟩

/-- No element before another one has its id, so whatever is put under this id stands in its place. -/
theorem insert_eq (h : d.Orderly n) {s : Shelf} {e a : Element R}
    {before after : List (Value R × Element R)}
    (hd : (d.shelf s).entries = before ++ (e.id, e) :: after) {id : Value R}
    (hid : id.key? = e.id.key?) : (d.shelf s).insert id a = ⟨before ++ (e.id, a) :: after⟩ := by
  have he : e ∈ (d.shelf s).values := by simp [Collection.values, hd]
  obtain ⟨i, hi, -⟩ := h.id_of_mem he
  have hbefore : ∀ x ∈ before, x.1.key? ≠ id.key? := by
    have hnodup := h.nodup_keys s
    rw [Collection.ids, hd, List.map_map, List.map_append, List.map_cons] at hnodup
    intro x hx hkey
    exact (List.nodup_append.1 hnodup).2.2 _ (List.mem_map_of_mem hx) _ List.mem_cons_self
      (hkey.trans hid)
  have hsome : id.key?.isSome := by
    rw [hid, hi]
    rfl
  unfold Collection.insert
  rw [hd, Collection.insertEntry_append hbefore hid.symm hsome]

theorem shelfOf?_of_mem (h : d.Orderly n) {s : Shelf} {e : Element R} (he : e ∈ (d.shelf s).values)
    {k : Key} (hk : e.id.key? = some k) : d.shelfOf? k = some s := by
  obtain ⟨i, hi, hm⟩ := h.id_of_mem he
  have hki : some (intKey i) = some k := by rw [← hk, hi, key?_int]
  have hc : (d.shelf s).contains k = true :=
    Collection.contains_iff.2 ⟨_, hm, hki⟩
  -- No other collection has the id, so whichever is found first is this one.
  obtain ⟨t, ht⟩ := Option.isSome_iff_exists.1 (List.find?_isSome.2 ⟨s, by cases s <;> decide, hc⟩ :
    (Shelf.all.find? fun s => (d.shelf s).contains k).isSome = true)
  have hct : (d.shelf t).contains k = true := by simpa using List.find?_some ht
  obtain ⟨v, hv, hkv⟩ := Collection.contains_iff.1 hct
  obtain ⟨j, -, rfl⟩ := h.id_eq hv
  have hij : i = j := by
    rw [← hki, key?_int, Option.some_inj, intKey_inj] at hkv
    exact hkv.symm
  subst hij
  rw [h.apart s t i hm hv]
  exact ht

theorem element_of_mem (h : d.Orderly n) {s : Shelf} {e : Element R} (he : e ∈ (d.shelf s).values)
    {id : Value R} (hid : id.key? = e.id.key?) : d.element id = .ok e := by
  obtain ⟨i, hi, -⟩ := h.id_of_mem he
  have hk : e.id.key? = some (intKey i) := by rw [hi, key?_int]
  refine element_eq_ok.2 ⟨_, expectKey_of_key? (hid.trans hk), ?_⟩
  unfold get?
  rw [h.shelfOf?_of_mem he hk]
  exact h.find?_of_mem he hk

end Orderly

/-- What is found under an id is stored under it. -/
theorem Sound.of_element {d : Diagram R} (h : d.Sound) {id : Value R} {e : Element R}
    (he : d.element id = .ok e) : ∃ s, e ∈ (d.shelf s).values ∧ id.key? = e.id.key? := by
  obtain ⟨n, hn⟩ := h.orderly
  obtain ⟨k, hk, hget⟩ := element_eq_ok.1 he
  obtain ⟨s, -, hfind⟩ := Orderly.shelf_of_get? hget
  obtain ⟨i, rfl, -, hm⟩ := hn.of_find? hfind
  refine ⟨s, List.mem_map_of_mem (f := Prod.snd) hm, ?_⟩
  rw [← (hn.own s _ hm).1]
  exact key?_of_expectKey hk

/-! ### Loops over the labels of an edge -/

theorem Sound.resolve_standing {d : Diagram R} (h : d.Sound) {l : Label R}
    (hl : .label l ∈ d.labels.values) : (d.resolve l).result = .ok (d.standing l) := by
  obtain ⟨p, hp, -⟩ := h.resolve hl
  rw [hp, standing, hp]

theorem Sound.exists_label {d : Diagram R} (h : d.Sound) {e : Element R} (he : e ∈ d.labels.values) :
    ∃ l, e = .label l := by
  obtain ⟨n, hn⟩ := h.orderly
  have hadm := hn.admits (s := .labels) he
  cases e with
  | label l => exact ⟨l, rfl⟩
  | _ => cases hadm

/-- The labels bound to an edge are those whose binding says so. -/
theorem boundAmong_eq {edge : Value R} : ∀ {es : List (Value R × Element R)} {ids : List (Value R)},
    boundAmong edge es = .ok ids → ids = (es.filter fun x => x.2.isBoundTo edge).map Prod.fst
  | [], ids, h => (Except.ok.inj h).symm
  | (id, e) :: es, ids, h => by
    obtain ⟨l, hl, hes⟩ := bind_eq_ok.1 h
    obtain ⟨b, hb, hes⟩ := bind_eq_ok.1 hes
    obtain ⟨rest, hrest, hes⟩ := bind_eq_ok.1 hes
    obtain rfl : e = .label l := by
      cases e <;> cases hl
      rfl
    rw [← Except.ok.inj hes, boundAmong_eq hrest, List.filter_cons]
    dsimp only
    rw [Label.isBoundTo_of_bound hb]
    cases b with
    | none => rfl
    | some b =>
      dsimp only [Option.any_some]
      split <;> rfl

namespace Rests

variable {f : Value R → Mutation R Unit} {rebind : Value R → Value R}

/-- The induction is on the labels that are still to come; those before them have been seen. -/
theorem loop_eq (hf : Rests f rebind) (edge : Value R) :
    ∀ (todo done : List (Value R × Element R)) {d : Diagram R}, d.Sound →
      d.labels.entries = done ++ todo →
      (forEach f ((todo.filter fun x => x.2.isBoundTo edge).map Prod.fst)).outcome d =
        (.ok (), { d with labels :=
          ⟨done ++ todo.map fun x => (x.1, d.rested edge rebind x.2)⟩ })
  | [], done, d, _, hd => by
    rw [List.append_nil] at hd
    rw [List.map_nil, List.append_nil, ← hd]
    rfl
  | (id, e) :: todo, done, d, h, hd => by
    obtain ⟨n, hn⟩ := h.orderly
    have hx : (id, e) ∈ d.labels.entries := by simp [hd]
    have he : e ∈ d.labels.values := List.mem_map_of_mem (f := Prod.snd) hx
    obtain ⟨l, rfl⟩ := h.exists_label he
    obtain rfl : id = l.id := (hn.own .labels _ hx).1
    cases hb : (Element.label l).isBoundTo edge with
    | false =>
      -- The label is passed over and stays as it is.
      have ih := hf.loop_eq edge todo (done ++ [(l.id, .label l)]) h (by simp [hd])
      rw [List.filter_cons_of_neg (by simp [hb]), ih, List.map_cons, rested_of_not_bound hb,
        List.append_assoc, List.singleton_append]
    | true =>
      have hunder : d.labelUnder l.id = .ok l :=
        bind_eq_ok.2 ⟨_, hn.lookUp_of_mem (s := .labels) he rfl, rfl⟩
      have hturn := hf.turn hunder (h.resolve_standing he)
      obtain ⟨t, ht, hs⟩ := hf.settles h (List.mem_map_of_mem (f := Prod.fst) hx)
      obtain rfl : t = _ := (Prod.mk.inj (ht.symm.trans hturn)).2
      have hreplaced : d.replaceLabel l.id
          { l with position := d.standing l, binding := rebind l.binding } =
          { d with labels := ⟨done ++ (l.id, d.rested edge rebind (.label l)) :: todo⟩ } := by
        unfold replaceLabel
        have hinsert := hn.insert_eq (s := .labels) (e := .label l)
          (a := .label { l with position := d.standing l, binding := rebind l.binding }) hd rfl
        rw [rested_label, if_pos hb]
        exact congrArg (fun labels => { d with labels := labels }) hinsert
      rw [hreplaced] at ht hs
      have ih := hf.loop_eq edge todo (done ++ [(l.id, d.rested edge rebind (.label l))]) hs.sound
        (by simp)
      rw [List.filter_cons, if_pos (show (Element.label l).isBoundTo edge = true from hb),
        List.map_cons, outcome_forEach_cons, ht]
      dsimp only
      rw [ih, rested_congr hs.edges_eq]
      simp

/-- A loop over the labels of an edge comes to one change of all labels. -/
theorem eachBound_eq (hf : Rests f rebind) {d : Diagram R} (h : d.Sound) (edge : Value R) :
    Diagram.eachBound f edge d = (.ok (), d.restLabels edge rebind) := by
  obtain ⟨ids, hids, -⟩ := h.labelsBoundTo edge
  unfold Diagram.eachBound
  rw [hids]
  have hloop := hf.loop_eq edge d.labels.entries [] h rfl
  rw [← boundAmong_eq hids] at hloop
  exact hloop

end Rests

/-! ### What an update of an edge and a deletion come to -/

/-- The diagram without the element under an id, whose labels have been released. -/
def deleted (d : Diagram R) (s : Shelf) (id : Value R) : Diagram R :=
  (d.restLabels id fun _ => .none).onShelf s (·.erase ⟨id.keyParts⟩)

theorem next_deleted (d : Diagram R) (s : Shelf) (id : Value R) :
    (d.deleted s id).next = d.next := next_onShelf _ _ _

namespace Sound

variable {d : Diagram R}

/-- An edge is replaced, and its labels are put where they stand then. -/
theorem outcome_updateEdge_eq (h : d.Sound) {id : Value R} {changes : List (String × Value R)}
    {e : Edge R} (he : d.changedEdgeUnder id changes = .ok e) :
    (Diagram.updateEdge id changes).outcome d =
      (.ok e, (d.replaceEdge id e).restLabels id fun binding => binding) := by
  rw [outcome_updateEdge, he]
  dsimp only
  rw [rests_settleLabel.eachBound_eq (h.replaceEdge he)]
  rfl

/-- Labels are bound to edges only. -/
theorem isBoundTo_eq_false (h : d.Sound) {s : Shelf} (hs : s ≠ .edges) {e : Element R}
    (he : e ∈ (d.shelf s).values) {id : Value R} (hid : id.key? = e.id.key?) {x : Element R}
    (hx : x ∈ d.labels.values) : x.isBoundTo id = false := by
  obtain ⟨n, hn⟩ := h.orderly
  obtain ⟨l, rfl⟩ := h.exists_label hx
  obtain ⟨hsound, ht⟩ := h.label hx
  obtain ⟨b, hb, -⟩ := hsound.binding
  rw [Label.isBoundTo_of_bound hb]
  cases b with
  | none => rfl
  | some b =>
    obtain ⟨i, hi, hmem⟩ := hn.id_of_mem he
    obtain ⟨k, hk, hlive⟩ := ht.isLive hb
    obtain ⟨v, hv, hkv⟩ := Collection.contains_iff.1 hlive
    obtain ⟨j, -, rfl⟩ := hn.id_eq (s := .edges) hv
    have hkey : b.target.key? = some (intKey j) := by rw [hk, ← hkv, key?_int]
    have hkid : id.key? = some (intKey i) := by rw [hid, hi, key?_int]
    -- Otherwise an edge would have the id of the element.
    rw [Option.any_some, Bool.eq_false_iff]
    intro hsame
    obtain rfl := (same_iff_of_key? hkey hkid).1 hsame
    exact hs (hn.apart s .edges j hmem hv)

theorem outcome_delete_eq (h : d.Sound) {s : Shelf} {e : Element R} (he : e ∈ (d.shelf s).values)
    {id : Value R} (hid : id.key? = e.id.key?) :
    (Diagram.delete id).outcome d = (.ok e, d.deleted s id) := by
  obtain ⟨n, hn⟩ := h.orderly
  obtain ⟨i, hi, hmem⟩ := hn.id_of_mem he
  have hk : id.key? = some ⟨id.keyParts⟩ := key?_eq_keyParts (hid.trans (by rw [hi, key?_int]))
  have hreleased : releaseBound id e d = (.ok (), d.restLabels id fun _ => .none) := by
    have hadm := hn.admits he
    by_cases hs : s = .edges
    · subst hs
      cases e with
      | edge e => exact (rests_releaseLabel id).eachBound_eq h id
      | _ => cases hadm
    · have hrest : d.restLabels id (fun _ => .none) = d := by
        unfold restLabels
        rw [Collection.mapValues_of_forall fun x hx =>
          rested_of_not_bound (h.isBoundTo_eq_false hs he hid hx)]
      rw [hrest]
      cases e with
      | edge e =>
        exfalso
        cases s <;> first | exact hs rfl | cases hadm
      | _ => rfl
  have hshelf : (d.restLabels id fun _ => .none).shelfOf? ⟨id.keyParts⟩ = some s := by
    have hsame : (d.restLabels id fun _ => .none).shelfOf? ⟨id.keyParts⟩ =
        d.shelfOf? ⟨id.keyParts⟩ := by
      unfold shelfOf?
      refine congrArg (List.find? · Shelf.all) (funext fun t => ?_)
      rw [Bool.eq_iff_iff, Collection.contains_iff, Collection.contains_iff, ids_restLabels]
    rw [hsame]
    exact hn.shelfOf?_of_mem he (hid ▸ hk)
  rw [outcome_delete, hn.element_of_mem he hid]
  dsimp only
  rw [hreleased]
  show (_, eraseElement _ _) = _
  unfold eraseElement
  rw [hshelf]
  rfl

/-- In every collection all labels are put where they stand, since there are none outside their own. -/
theorem entries_restLabels (h : d.Sound) (edge : Value R) (rebind : Value R → Value R) (s : Shelf) :
    ((d.restLabels edge rebind).shelf s).entries =
      (d.shelf s).entries.map fun x => (x.1, d.rested edge rebind x.2) := by
  obtain ⟨n, hn⟩ := h.orderly
  by_cases hs : s = .labels
  · rw [hs]
    rfl
  · rw [shelf_restLabels hs]
    refine ((List.map_congr_left fun x hx => ?_).trans (List.map_id _)).symm
    have hfree : x.2.isBoundTo edge = false := by
      have hm := List.mem_map_of_mem (f := Prod.snd) hx
      rcases x with ⟨id, _ | _ | _ | l⟩
      case label => exact absurd (hn.eq_labels hm) hs
      all_goals rfl
    rw [rested_of_not_bound hfree]
    rfl

/-- A deletion takes the element away and leaves everything else in its place. -/
theorem entries_deleted (h : d.Sound) {s : Shelf} {e : Element R} (he : e ∈ (d.shelf s).values)
    {id : Value R} (hid : id.key? = e.id.key?) (t : Shelf) :
    ((d.deleted s id).shelf t).entries =
      ((d.shelf t).entries.filter fun x => x.1.key? ≠ id.key?).map
        fun x => (x.1, d.rested id (fun _ => .none) x.2) := by
  obtain ⟨n, hn⟩ := h.orderly
  obtain ⟨i, hi, hmem⟩ := hn.id_of_mem he
  have hkey : id.key? = some (intKey i) := by rw [hid, hi, key?_int]
  unfold deleted
  rw [shelf_onShelf]
  by_cases hts : t = s
  · subst hts
    rw [if_pos rfl, key?_eq_keyParts hkey]
    unfold Collection.erase
    rw [h.entries_restLabels, List.filter_map]
    rfl
  · rw [if_neg hts, h.entries_restLabels]
    refine congrArg _ (List.filter_eq_self.2 fun x hx => ?_).symm
    obtain ⟨j, -, hj⟩ := hn.id_eq (List.mem_map_of_mem (f := Prod.fst) hx)
    -- The id of the element is not in use in another collection.
    have hij : j ≠ i := by
      rintro rfl
      exact hts (hn.apart t s j (hj ▸ List.mem_map_of_mem (f := Prod.fst) hx) hmem)
    rw [hj, hkey, key?_int]
    simpa [intKey_inj] using hij

/-- A label that is bound to an edge is looked up by another key than any value it is not bound to. -/
theorem ne_of_isBoundTo_eq_false {l : Label R}
    {id : Value R} {i : Int} (hid : id.key? = some (intKey i))
    (hfree : (Element.label l).isBoundTo id = false) {b : Binding R} {k : Key}
    (hb : l.bound? = .ok (some b)) (hk : b.target.expectKey = .ok k) : k ≠ intKey i := by
  rintro rfl
  rw [Label.isBoundTo_of_bound hb] at hfree
  have hsame : b.target.same id = true := same_of_key? (key?_of_expectKey hk) hid
  exact absurd hsame (by simpa using hfree)

/-- Whatever is deleted, no label that is left stands elsewhere. -/
theorem resolve_deleted (h : d.Sound) {s : Shelf} {e : Element R} (he : e ∈ (d.shelf s).values)
    {id : Value R} (hid : id.key? = e.id.key?) {l l' : Label R} (hl : .label l ∈ d.labels.values)
    (hl' : d.rested id (fun _ => .none) (.label l) = .label l') :
    ((d.deleted s id).resolve l').result = (d.resolve l).result := by
  obtain ⟨n, hn⟩ := h.orderly
  obtain ⟨i, hi, -⟩ := hn.id_of_mem he
  have hkey : id.key? = some (intKey i) := by rw [hid, hi, key?_int]
  rw [rested_label] at hl'
  split at hl'
  · cases hl'
    exact ((d.deleted s id).resolve_of_unbound rfl).trans (h.resolve_standing hl).symm
  · rename_i hfree
    cases hl'
    refine resolve_eq_of_find? fun b k hb hk => ?_
    -- The edge the label is bound to is another one, so it is still there.
    have hne : k ≠ ⟨id.keyParts⟩ := by
      rw [Option.some.inj ((key?_eq_keyParts hkey).symm.trans hkey)]
      exact ne_of_isBoundTo_eq_false hkey (by simpa using hfree) hb hk
    have hshelf := shelf_onShelf (d.restLabels id fun _ => .none) s .edges (·.erase ⟨id.keyParts⟩)
    show (Diagram.shelf (d.deleted s id) .edges).find? k = d.edges.find? k
    unfold deleted
    rw [hshelf]
    split
    · exact Collection.find?_erase_of_ne hne
    · rfl

end Sound

end Diagram

end FeynmanTikz
