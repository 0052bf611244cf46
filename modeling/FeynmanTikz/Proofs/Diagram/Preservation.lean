/-
Every mutation keeps ids and references in order.

A creation that succeeds hands out the next id and counts it up by one; a creation that fails
changes nothing; no other mutation touches the next id.  Whatever happens, the diagram stays
`Orderly`.

* `Creates` and `Orderly.creates_point`, `creates_edge`, `creates_ellipse`, `creates_label`,
* `Orderly.keeps_delete`: the labels of a deleted edge have been released before it goes,
* `Orderly.keeps_updateEdge`, `keeps_moveLabel`, `keeps_bindLabel`, `keeps_unbindLabel`,
  `keeps_clear`.
-/
import FeynmanTikz.Proofs.Diagram.Identity

namespace FeynmanTikz

open Edit

variable {R : Type} [Arithmetic R]

/-! ### Comparing ids -/

/-- A value with the key of a whole number is that number, in some form. -/
theorem asNumber?_of_key? {v : Value R} {i : Int} (h : v.key? = some (intKey i)) :
    ∃ x negative, v.asNumber? = some x ∧ x.reading = .finite negative i := by
  have hp : v.keyParts = [.number i] := by
    unfold Value.key? at h
    split at h
    · exact Key.mk.inj (Option.some.inj h)
    · cases h
  have hn {x : Scalar R} (hx : [Value.numberPart x] = [.number (i : Rat)]) :
      ∃ negative, x.reading = .finite negative i := by
    have hx : Value.numberPart x = .number (i : Rat) := (List.cons.inj hx).1
    unfold Value.numberPart at hx
    split at hx
    · rename_i negative q hr
      obtain rfl : q = i := by injection hx
      exact ⟨negative, hr⟩
    · cases hx
    · cases hx
  cases v with
  | bool b =>
    obtain ⟨negative, hx⟩ := hn hp
    exact ⟨_, negative, rfl, hx⟩
  | number x =>
    obtain ⟨negative, hx⟩ := hn hp
    exact ⟨x, negative, rfl, hx⟩
  | _ => simp [Value.keyParts] at hp

theorem same_of_asNumber? {v w : Value R} {x y : Scalar R} (hv : v.asNumber? = some x)
    (hw : w.asNumber? = some y) : v.same w = x.same y := by
  cases v <;> simp only [Value.asNumber?, reduceCtorEq] at hv <;> cases w <;>
    simp only [Value.asNumber?, reduceCtorEq] at hw <;> simp_all [Value.same, Value.asNumber?]

/-- Values with the keys of whole numbers are equal as numbers just if these are the same. -/
theorem same_iff_of_key? {v w : Value R} {i j : Int} (hv : v.key? = some (intKey i))
    (hw : w.key? = some (intKey j)) : v.same w = true ↔ i = j := by
  obtain ⟨x, m, hx, hxr⟩ := asNumber?_of_key? hv
  obtain ⟨y, n, hy, hyr⟩ := asNumber?_of_key? hw
  rw [same_of_asNumber? hx hy, Scalar.same_eq, hxr, hyr]
  have hij : (i : Rat) ≤ j ∧ (j : Rat) ≤ i ↔ i = j := by
    rw [Rat.intCast_le_intCast, Rat.intCast_le_intCast]
    omega
  simpa [Reading.same] using hij

theorem same_of_key? {v w : Value R} {i : Int} (hv : v.key? = some (intKey i))
    (hw : w.key? = some (intKey i)) : v.same w = true := (same_iff_of_key? hv hw).2 rfl

namespace Diagram

/-- The labels bound to an edge are all found. -/
theorem mem_boundAmong {edge : Value R} {b : Binding R} {k : Value R} {l : Label R}
    (hb : l.bound? = .ok (some b)) (ht : b.target.same edge = true) :
    ∀ {es : List (Value R × Element R)} {ids : List (Value R)},
      boundAmong edge es = .ok ids → (k, Element.label l) ∈ es → k ∈ ids
  | [], _, _, hm => absurd hm List.not_mem_nil
  | (id, e) :: es, ids, h, hm => by
    obtain ⟨l', hl', h⟩ := bind_eq_ok.1 h
    obtain ⟨b', hb', h⟩ := bind_eq_ok.1 h
    obtain ⟨rest, hrest, h⟩ := bind_eq_ok.1 h
    -- Whatever the first entry is, what is found behind it is kept.
    have hin (hk : k ∈ rest) : k ∈ ids := by
      rw [← Except.ok.inj h]
      cases b' with
      | none => exact hk
      | some b' =>
        dsimp only
        split
        · exact List.mem_cons_of_mem _ hk
        · exact hk
    rcases List.mem_cons.1 hm with hm | hm
    · cases hm
      cases hl'
      rw [hb] at hb'
      cases hb'
      rw [← Except.ok.inj h]
      simp [ht]
    · exact hin (mem_boundAmong hb ht hrest hm)

/-! ### Creation -/

/-- The edit either creates an element under the next id, or fails and changes nothing. -/
def Creates {α : Type} (make : α → Element R) (m : Mutation R α) (d : Diagram R) (n : Int) :
    Prop :=
  (∃ a, (m.outcome d).1 = .ok a ∧ (make a).id = .int n ∧ (m.outcome d).2.Orderly (n + 1)) ∨
    ∃ e, m.outcome d = (.error e, d)

theorem creates_of_written {α : Type} {make : α → Element R} {m : Mutation R α} {d : Diagram R}
    {n : Int} {r : Except (Fault R) α} {write : α → Diagram R}
    (hm : m.outcome d = written r write d)
    (hr : ∀ a, r = .ok a → (make a).id = .int n ∧ (write a).Orderly (n + 1)) :
    Creates make m d n := by
  rcases r with e | a
  · exact .inr ⟨e, hm⟩
  · obtain ⟨hi, ho⟩ := hr a rfl
    exact .inl ⟨a, by rw [hm]; rfl, hi, by rw [hm]; exact ho⟩

namespace Orderly

variable {d : Diagram R} {n : Int}

theorem number_next (h : d.Orderly n) : (Value.number d.next : Value R) = .int n := by
  rw [h.next_eq]
  rfl

theorem withPoint (h : d.Orderly n) {p : Point R} (hp : p.id = .int n) :
    (d.withPoint p).Orderly (n + 1) :=
  h.create (s := .points) (e := .point p) rfl hp (by rintro l ⟨⟩)

theorem withEdge (h : d.Orderly n) {e : Edge R} (he : e.id = .int n) :
    (d.withEdge e).Orderly (n + 1) :=
  h.create (s := .edges) (e := .edge e) rfl he (by rintro l ⟨⟩)

theorem withEllipse (h : d.Orderly n) {e : Ellipse R} (he : e.id = .int n) :
    (d.withEllipse e).Orderly (n + 1) :=
  h.create (s := .ellipses) (e := .ellipse e) rfl he (by rintro l ⟨⟩)

theorem withLabel (h : d.Orderly n) {l : Label R} (hl : l.id = .int n) (ht : d.Tied l) :
    (d.withLabel l).Orderly (n + 1) :=
  h.create (s := .labels) (e := .label l) rfl hl (by rintro l ⟨⟩; exact ht)

theorem creates_point (h : d.Orderly n) (position radius : Value R) :
    Creates .point (createPoint position radius) d n := by
  refine creates_of_written (outcome_createPoint d position radius) fun p hp => ?_
  have hid := (of_newPoint hp).1.trans h.number_next
  exact ⟨hid, h.withPoint hid⟩

theorem creates_edge (h : d.Orderly n) (kind start finish control style : Value R) :
    Creates .edge (createEdge kind start finish control style) d n := by
  refine creates_of_written (outcome_createEdge d kind start finish control style) fun e he => ?_
  have hid := (of_newEdge he).1.trans h.number_next
  exact ⟨hid, h.withEdge hid⟩

theorem creates_ellipse (h : d.Orderly n) (center rx ry color strokeWidth : Value R) :
    Creates .ellipse (createEllipse center rx ry color strokeWidth) d n := by
  refine creates_of_written (outcome_createEllipse d center rx ry color strokeWidth) fun e he => ?_
  have hid := (of_newEllipse he).1.trans h.number_next
  exact ⟨hid, h.withEllipse hid⟩

/-- Putting a label where its binding leads changes nothing but its position. -/
theorem of_placed {l l' : Label R} (hl : (d.placed l).result = .ok l') :
    ∃ position, l' = { l with position } := by
  unfold placed at hl
  split at hl
  · rw [Logged.result_bind, bind_eq_ok] at hl
    obtain ⟨position, -, hl⟩ := hl
    cases hl
    exact ⟨position, rfl⟩
  · cases hl
    exact ⟨_, rfl⟩

theorem creates_label (h : d.Orderly n) (position text binding : Value R) :
    Creates .label (createLabel position text binding) d n := by
  refine creates_of_written (outcome_createLabel d position text binding) fun l hl => ?_
  obtain ⟨l₀, hid, -, -, hc, hl⟩ := of_newLabel hl
  obtain ⟨position, rfl⟩ := of_placed hl
  replace hid := hid.trans h.number_next
  have ht : d.Tied _ := h.tied_of_isValid (Label.check_eq_ok.1 hc)
  exact ⟨hid, h.withLabel hid ht⟩

/-! ### Changes in place -/

theorem keeps_moveLabel (n : Int) (id position : Value R) :
    Keeps (fun d : Diagram R => d.Orderly n) (moveLabel id position) := by
  intro d h
  rw [outcome_moveLabel]
  refine written_keeps (P := fun d : Diagram R => d.Orderly n) h fun l hl => ?_
  obtain ⟨old, p, binding, ho, -, -, rfl, hc⟩ := of_movedLabel hl
  exact h.replaceLabel ho rfl (h.tied_of_isValid (Label.check_eq_ok.1 hc))

theorem keeps_bindLabel (n : Int) (id edge anchor offset : Value R) :
    Keeps (fun d : Diagram R => d.Orderly n) (bindLabel id edge anchor offset) := by
  intro d h
  rw [outcome_bindLabel]
  refine written_keeps (P := fun d : Diagram R => d.Orderly n) h fun l hl => ?_
  obtain ⟨old, l₀, ho, hid, hc, hl⟩ := of_boundLabel hl
  obtain ⟨position, rfl⟩ := of_placed hl
  have ht : d.Tied _ := h.tied_of_isValid (Label.check_eq_ok.1 hc)
  exact h.replaceLabel ho hid ht

theorem keeps_unbindLabel (n : Int) (id : Value R) :
    Keeps (fun d : Diagram R => d.Orderly n) (unbindLabel id) := by
  intro d h
  rw [outcome_unbindLabel]
  exact written_keeps (P := fun d : Diagram R => d.Orderly n) h fun l hl => (h.freed hl).1

theorem cleared (h : d.Orderly n) : d.cleared.Orderly n :=
  orderly_of_empty h.next_eq fun s => by cases s <;> rfl

theorem keeps_clear (n : Int) : Keeps (fun d : Diagram R => d.Orderly n) clear :=
  fun _ h => h.cleared

theorem id_changedEdge {old e : Edge R} {changes : List (String × Value R)}
    (h : (changedEdge old changes).result = .ok e) : e.id = old.id := by
  simp only [changedEdge, Logged.result_bind, bind_eq_ok] at h
  obtain ⟨start, -, finish, -, control, -, control, -, h⟩ := h
  split at h
  · cases h
    rfl
  · obtain ⟨style, -, h⟩ := bind_eq_ok.1 ((Logged.result_bind _ _).symm.trans h)
    cases h
    rfl

theorem refuseChanges_ne_ok {α : Type} (changes : List (String × Value R)) (a : α) :
    refuseChanges changes ≠ .ok a := by
  intro h
  obtain ⟨_, -, h⟩ := bind_eq_ok.1 h
  obtain ⟨_, -, h⟩ := bind_eq_ok.1 h
  obtain ⟨_, -, h⟩ := bind_eq_ok.1 h
  split at h <;> cases h

/-- An edge that is about to be replaced by a changed one. -/
theorem changedEdgeUnder (h : d.Orderly n) {id : Value R} {changes : List (String × Value R)}
    {e : Edge R} (hc : d.changedEdgeUnder id changes = .ok e) :
    (d.replaceEdge id e).Orderly n ∧ e.check = .ok () := by
  obtain ⟨old, ho, hc⟩ := bind_eq_ok.1 hc
  split at hc
  · obtain ⟨e', he, hc⟩ := bind_eq_ok.1 hc
    obtain ⟨⟨⟩, hcheck, hc⟩ := bind_eq_ok.1 hc
    cases hc
    cases old with
    | edge old =>
      refine ⟨?_, hcheck⟩
      exact h.replace (s := .edges) ho (id_changedEdge he) rfl (by rintro l ⟨⟩)
    | _ => exact absurd he (refuseChanges_ne_ok changes e)
  · cases hc

theorem keeps_updateEdge (n : Int) (id : Value R) (changes : List (String × Value R)) :
    Keeps (fun d : Diagram R => d.Orderly n) (updateEdge id changes) := by
  intro d h
  rw [outcome_updateEdge]
  rcases hc : d.changedEdgeUnder id changes with f | e
  · exact h
  have hr := (h.changedEdgeUnder hc).1
  show (eachBound settleLabel id (d.replaceEdge id e)).2.Orderly n
  unfold eachBound
  rcases (d.replaceEdge id e).labelsBoundTo id with f | ids
  · exact hr
  · exact Diagram.Keeps.forEach (keeps_settleLabel n) ids _ hr

/-! ### Deletion -/

theorem shelf_of_get? {k : Key} {e : Element R} (he : d.get? k = some e) :
    ∃ s, d.shelfOf? k = some s ∧ (d.shelf s).find? k = some e := by
  unfold get? at he
  rcases hs : d.shelfOf? k with _ | s
  · rw [hs] at he
    cases he
  · rw [hs] at he
    exact ⟨s, rfl, he⟩

/-- What an orderly diagram has under a key is stored under a whole number with that key. -/
theorem of_find? (h : d.Orderly n) {s : Shelf} {k : Key} {e : Element R}
    (he : (d.shelf s).find? k = some e) :
    ∃ i, k = intKey i ∧ s.admits e = true ∧ (Value.int i, e) ∈ (d.shelf s).entries := by
  obtain ⟨v, hv, hk⟩ := Collection.mem_of_find? he
  obtain ⟨i, -, rfl⟩ := h.id_eq (List.mem_map_of_mem (f := Prod.fst) hv)
  rw [key?_int] at hk
  exact ⟨i, (Option.some.inj hk).symm, (h.own s _ hv).2, hv⟩

theorem eraseElement (h : d.Orderly n) (k : Key)
    (ht : d.shelfOf? k = some .edges → ∀ l, .label l ∈ d.labels.values → l.binding = .none ∨
      ∃ b, l.bound? = .ok (some b) ∧ d.IsLive b.target ∧ b.target.key? ≠ some k) :
    (eraseElement k d).Orderly n := by
  unfold Diagram.eraseElement
  rcases hs : d.shelfOf? k with _ | s
  · exact h
  · refine h.erase s k fun hse => ?_
    subst hse
    exact ht hs

theorem keeps_delete (n : Int) (id : Value R) :
    Keeps (fun d : Diagram R => d.Orderly n) (delete id) := by
  intro d h
  rw [outcome_delete]
  rcases he : d.element id with f | e
  · exact h
  obtain ⟨k, hk, hg⟩ := element_eq_ok.1 he
  obtain rfl := eq_of_expectKey hk
  -- The id that is given may be a whole number in another form; its key is the one of a stored id.
  obtain ⟨s, hs, hfind⟩ := shelf_of_get? hg
  obtain ⟨i, hki, hadm, hm⟩ := h.of_find? hfind
  rw [hki] at hk
  have hid := key?_of_expectKey hk
  show (withoutElement ⟨id.keyParts⟩ (releaseBound id e d)).Orderly n
  cases e with
  | edge e =>
    show (withoutElement ⟨id.keyParts⟩ (eachBound (releaseLabel id) id d)).Orderly n
    unfold eachBound
    rcases hb : d.labelsBoundTo id with f | ids
    · exact h
    dsimp only
    have hkeep := Diagram.Keeps.forEach (keeps_releaseLabel n id) ids d h
    rcases hr : (forEach (releaseLabel id) ids).outcome d with ⟨f | ⟨⟨⟩⟩, d'⟩
    · rw [hr] at hkeep
      exact hkeep
    rw [hr] at hkeep
    obtain ⟨hedges, hlabels⟩ := h.released hr
    refine hkeep.eraseElement _ fun _ l hl => ?_
    obtain ⟨⟨v, l'⟩, hx, hxl⟩ := List.mem_map.1 hl
    obtain rfl : l' = .label l := hxl
    -- A label that keeps its binding is not among those bound to the edge, so it leads elsewhere.
    rcases hlabels _ hx with ⟨l', ⟨⟩, hfree⟩ | ⟨hx, hni⟩
    · exact .inl hfree
    rcases h.live l (List.mem_map_of_mem (f := Prod.snd) hx) with hfree | ⟨b, hbound, hlive⟩
    · exact .inl hfree
    · refine .inr ⟨b, hbound, (isLive_congr (congrArg Collection.ids hedges)).2 hlive, fun hkey => ?_⟩
      rw [hki] at hkey
      exact hni (mem_boundAmong hbound (same_of_key? hkey hid) hb hx)
  | point _ | ellipse _ | label _ =>
    refine h.eraseElement _ fun hse => ?_
    rw [hs] at hse
    cases hse
    cases hadm

end Orderly

end Diagram

end FeynmanTikz
