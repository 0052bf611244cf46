/-
A mutation that is refused leaves no trace.

Most mutations write once, after everything that can fail.  An update of an edge and the deletion of
one write more than once: the edge, and the labels bound to it.  What they rest on is that in a sound
diagram no label can fail, so after the first write no step does.

* `Sound.follows_inserted`, `Sound.follows_grown`, `Sound.follows_replaceLabel`: what one step leads to,
* `Rests`: an edit that leaves a label where it stands; `Rests.loop`: a loop of such edits succeeds,
* `Traceable`: where the position of a label may come from,
* `Sound.perform`: a request succeeds and leads to a sound diagram, or changes nothing at all,
* `run_atomic`: so it is for every request after every run.

Design notes.
* `Traceable` says more than is needed for atomicity: whoever wants to know where labels stand after
  a run does not have to open the mutations again.
-/
import FeynmanTikz.Proofs.Diagram.Run
import FeynmanTikz.Proofs.Diagram.Soundness
import FeynmanTikz.Proofs.Tikz.Legibility

namespace FeynmanTikz

open Edit

variable {R : Type} [Arithmetic R]

namespace Diagram

/-- Where the position of a label of `t` comes from, after an edit of `d`: it has been there before,
it has been checked, it is where a label stood before the edit, or it is where a binding leads after
it. -/
inductive Traceable (d t : Diagram R) (l : Label R) : Prop where
  | old (h : .label l ∈ d.labels.values)
  | checked (h : IsPosition l.position)
  | before (l₀ : Label R) (h : .label l₀ ∈ d.labels.values)
      (hp : (d.resolve l₀).result = .ok l.position)
  | after (hb : l.binding.isSome = true) (h : (t.resolve l).result = .ok l.position)

/-- What an edit of `d` that succeeds leads to. -/
structure Follows (d t : Diagram R) : Prop where
  sound : t.Sound
  traceable : ∀ l, .label l ∈ t.labels.values → Traceable d t l

/-! ### What keeps a diagram sound -/

namespace Sound

variable {d : Diagram R} {n : Int}

/-- Another element in a collection, under an id that may be in use. -/
theorem follows_inserted (h : d.Sound) {s : Shelf} {id : Value R} {e : Element R}
    (ho : (d.onShelf s (·.insert id e)).Orderly n) (he : e.IsSound)
    (hl : ∀ l, e = .label l → Traceable d (d.onShelf s (·.insert id e)) l) :
    Follows d (d.onShelf s (·.insert id e)) := by
  refine ⟨⟨⟨n, ho⟩, forall_inserted (P := fun _ e => e.IsSound) h.elements he⟩, fun l hm => ?_⟩
  -- Of the other collections nothing is asked, since none of them has a label.
  refine forall_inserted
    (P := fun t x => t = .labels → ∀ l, x = .label l → Traceable d (d.onShelf s (·.insert id e)) l)
    ?_ (fun _ => hl) .labels _ hm rfl l rfl
  rintro _ x hx rfl l rfl
  exact .old hx

/-- An element more. -/
theorem follows_grown (h : d.Sound) {s : Shelf} {e : Element R} (ho : (d.grown s e).Orderly n)
    (he : e.IsSound) (hl : ∀ l, e = .label l → Traceable d (d.grown s e) l) :
    Follows d (d.grown s e) := by
  refine ⟨⟨⟨n, ho⟩, forall_grown (P := fun _ e => e.IsSound) h.elements he⟩, fun l hm => ?_⟩
  refine forall_grown
    (P := fun t x => t = .labels → ∀ l, x = .label l → Traceable d (d.grown s e) l)
    ?_ (fun _ => hl) .labels _ hm rfl l rfl
  rintro _ x hx rfl l rfl
  exact .old hx

theorem follows_replaceLabel (h : d.Sound) {id : Value R} {l : Label R}
    (ho : (d.replaceLabel id l).Orderly n) (hl : l.IsSound)
    (ht : Traceable d (d.replaceLabel id l) l) : Follows d (d.replaceLabel id l) :=
  h.follows_inserted (s := .labels) (e := .label l) ho hl (by rintro _ ⟨⟩; exact ht)

end Sound

/-! ### Creation -/

namespace Sound

variable {d : Diagram R}

theorem createPoint (h : d.Sound) (position radius : Value R) :
    AllOrNothing (Follows d) (createPoint position radius) d := by
  obtain ⟨n, hn⟩ := h.orderly
  refine .of_written (outcome_createPoint d position radius) fun p hp => ?_
  obtain ⟨hid, hc⟩ := of_newPoint hp
  exact h.follows_grown (s := .points) (e := .point p) (hn.withPoint (hid.trans hn.number_next)) hc
    (by rintro l ⟨⟩)

theorem createEdge (h : d.Sound) (kind start finish control style : Value R) :
    AllOrNothing (Follows d) (createEdge kind start finish control style) d := by
  obtain ⟨n, hn⟩ := h.orderly
  refine .of_written (outcome_createEdge d kind start finish control style) fun e he => ?_
  obtain ⟨hid, hc⟩ := of_newEdge he
  exact h.follows_grown (s := .edges) (e := .edge e) (hn.withEdge (hid.trans hn.number_next)) hc
    (by rintro l ⟨⟩)

theorem createEllipse (h : d.Sound) (center rx ry color strokeWidth : Value R) :
    AllOrNothing (Follows d) (createEllipse center rx ry color strokeWidth) d := by
  obtain ⟨n, hn⟩ := h.orderly
  refine .of_written (outcome_createEllipse d center rx ry color strokeWidth) fun e he => ?_
  obtain ⟨hid, hc⟩ := of_newEllipse he
  exact h.follows_grown (s := .ellipses) (e := .ellipse e)
    (hn.withEllipse (hid.trans hn.number_next)) hc (by rintro l ⟨⟩)

/-- A valid label that has been put where its binding leads is sound.  It stands within bounds, or
where its binding leads. -/
theorem placed (h : d.Sound) {l l' : Label R} (hv : l.IsValid d.edges.ids)
    (hl : (d.placed l).result = .ok l') :
    l'.IsSound ∧ (IsPosition l'.position ∨
      l'.binding.isSome = true ∧ (d.resolve l').result = .ok l'.position) := by
  obtain ⟨n, hn⟩ := h.orderly
  have ht := hn.tied_of_isValid hv
  unfold Diagram.placed at hl
  by_cases hb : l.binding.isSome = true
  · rw [if_pos hb, Logged.result_bind] at hl
    obtain ⟨p, hp, hl⟩ := bind_eq_ok.1 hl
    cases hl
    obtain ⟨p', hp', hpair⟩ := h.resolve_tied hv.isSound ht
    obtain rfl : p' = p := by simpa [hp] using hp'.symm
    exact ⟨hv.isSound.moved hpair, .inr ⟨hb, resolve_settled hp⟩⟩
  · rw [if_neg hb] at hl
    cases hl
    exact ⟨hv.isSound, .inl hv.position⟩

theorem createLabel (h : d.Sound) (position text binding : Value R) :
    AllOrNothing (Follows d) (createLabel position text binding) d := by
  obtain ⟨n, hn⟩ := h.orderly
  refine .of_written (outcome_createLabel d position text binding) fun l hl => ?_
  obtain ⟨l₀, hid, -, -, hc, hl⟩ := of_newLabel hl
  have hv := Label.check_eq_ok.1 hc
  obtain ⟨hsound, hwhere⟩ := h.placed hv hl
  obtain ⟨position, rfl⟩ := Orderly.of_placed hl
  have ht : d.Tied _ := hn.tied_of_isValid hv
  refine h.follows_grown (s := .labels) (e := .label _)
    (hn.withLabel (hid.trans hn.number_next) ht) hsound ?_
  rintro _ ⟨⟩
  rcases hwhere with hp | ⟨hb, hp⟩
  · exact .checked hp
  · -- The edges are those from before, so the label stands where it did.
    exact .after hb ((congrArg Logged.result (resolve_congr rfl _)).trans hp)

end Sound

/-! ### Changes of a label -/

namespace Sound

variable {d : Diagram R}

theorem moveLabel (h : d.Sound) (id position : Value R) :
    AllOrNothing (Follows d) (moveLabel id position) d := by
  obtain ⟨n, hn⟩ := h.orderly
  refine .of_written (outcome_moveLabel d id position) fun l hl => ?_
  have ho := Orderly.keeps_moveLabel n id position d hn
  rw [outcome_moveLabel, hl] at ho
  obtain ⟨-, -, -, -, -, -, -, hc⟩ := of_movedLabel hl
  have hv := Label.check_eq_ok.1 hc
  exact h.follows_replaceLabel ho hv.isSound (.checked hv.position)

theorem bindLabel (h : d.Sound) (id edge anchor offset : Value R) :
    AllOrNothing (Follows d) (bindLabel id edge anchor offset) d := by
  obtain ⟨n, hn⟩ := h.orderly
  refine .of_written (outcome_bindLabel d id edge anchor offset) fun l hl => ?_
  have ho := Orderly.keeps_bindLabel n id edge anchor offset d hn
  rw [outcome_bindLabel, hl] at ho
  obtain ⟨-, l₀, -, -, hc, hl⟩ := of_boundLabel hl
  obtain ⟨hsound, hp | ⟨hb, hp⟩⟩ := h.placed (Label.check_eq_ok.1 hc) hl
  · exact h.follows_replaceLabel ho hsound (.checked hp)
  · exact h.follows_replaceLabel ho hsound
      (.after hb ((congrArg Logged.result (resolve_congr rfl _)).trans hp))

/-- The label under an id is one of the labels. -/
theorem mem_of_labelUnder (h : d.Sound) {id : Value R} {l : Label R}
    (hl : d.labelUnder id = .ok l) : .label l ∈ d.labels.values := by
  obtain ⟨n, hn⟩ := h.orderly
  obtain ⟨i, -, -, -, hm⟩ := hn.of_lookUp (hn.of_labelUnder hl).1
  exact List.mem_map_of_mem (f := Prod.snd) hm

theorem unbindLabel (h : d.Sound) (id : Value R) :
    AllOrNothing (Follows d) (unbindLabel id) d := by
  obtain ⟨n, hn⟩ := h.orderly
  refine .of_written (outcome_unbindLabel d id) fun l hl => ?_
  have ho := (hn.freed hl).1
  obtain ⟨old, hold, hl⟩ := bind_eq_ok.1 hl
  obtain ⟨p, hp, hl⟩ := bind_eq_ok.1 hl
  cases hl
  have hm := h.mem_of_labelUnder hold
  obtain ⟨p', hp', hpair⟩ := h.resolve hm
  obtain rfl : p' = p := by simpa [hp] using hp'.symm
  exact h.follows_replaceLabel ho ((h.label hm).1.freed hpair) (.before old hm hp)

end Sound

/-! ### Loops over the labels of an edge -/

/-- An edit of the label under an id that leaves it where it stands, and keeps its binding or takes it
away. -/
structure Rests (f : Value R → Mutation R Unit) (rebind : Value R → Value R) : Prop where
  keeps : ∀ n id, Keeps (fun d : Diagram R => d.Orderly n) (f id)
  rebind_eq : ∀ b, rebind b = b ∨ rebind b = .none
  turn : ∀ {d : Diagram R} {id : Value R} {l : Label R} {p : Value R}, d.labelUnder id = .ok l →
    (d.resolve l).result = .ok p →
      (f id).outcome d = (.ok (), d.replaceLabel id { l with position := p, binding := rebind l.binding })

theorem rests_settleLabel : Rests (settleLabel (R := R)) fun binding => binding := by
  refine ⟨Orderly.keeps_settleLabel, fun _ => .inl rfl, fun {d id l p} hl hp => ?_⟩
  have hs : d.settledLabel id = .ok { l with position := p } := by
    unfold settledLabel
    rw [hl, ok_bind, hp]
    rfl
  rw [outcome_settleLabel, hs]
  rfl

theorem rests_releaseLabel (edge : Value R) : Rests (releaseLabel edge) fun _ => .none := by
  refine ⟨fun n => Orderly.keeps_releaseLabel n edge, fun _ => .inr rfl, fun {d id l p} hl hp => ?_⟩
  have hs : d.freedLabel id = .ok { l with position := p, binding := .none } := by
    unfold freedLabel
    rw [hl, ok_bind, hp]
    rfl
  rw [outcome_releaseLabel, hs]
  rfl

/-- In `t` some labels of `d` have been put where they stand, with another binding; nothing else has
changed. -/
structure Settles (rebind : Value R → Value R) (d t : Diagram R) : Prop where
  sound : t.Sound
  edges_eq : t.edges = d.edges
  ids_eq : t.labels.ids = d.labels.ids
  labels : ∀ l, .label l ∈ t.labels.values → .label l ∈ d.labels.values ∨
    ((t.resolve l).result = .ok l.position ∧ ∃ l₀, .label l₀ ∈ d.labels.values ∧
      l.binding = rebind l₀.binding ∧ (d.resolve l₀).result = .ok l.position)

namespace Rests

variable {f : Value R → Mutation R Unit} {rebind : Value R → Value R}

/-- To rest twice is to rest once. -/
theorem rebind_twice (hf : Rests f rebind) (b : Value R) : rebind (rebind b) = rebind b := by
  rcases hf.rebind_eq b with hb | hb
  · rw [hb, hb]
  · rw [hb]
    exact (hf.rebind_eq .none).elim id id

theorem trans (hf : Rests f rebind) {d t u : Diagram R} (h : Settles rebind d t)
    (h' : Settles rebind t u) : Settles rebind d u := by
  refine ⟨h'.sound, h'.edges_eq.trans h.edges_eq, h'.ids_eq.trans h.ids_eq, fun l hl => ?_⟩
  have hresolve (l : Label R) : u.resolve l = t.resolve l := resolve_congr h'.edges_eq l
  rcases h'.labels l hl with hl | ⟨hu, l₁, hl₁, hb, hp⟩
  · rcases h.labels l hl with hl | ⟨ht, hbefore⟩
    · exact .inl hl
    · exact .inr ⟨by rw [hresolve, ht], hbefore⟩
  · refine .inr ⟨hu, ?_⟩
    rcases h.labels l₁ hl₁ with hl₁ | ⟨ht, l₀, hl₀, hb₀, hp₀⟩
    · exact ⟨l₁, hl₁, hb, by rw [← resolve_congr h.edges_eq, hp]⟩
    · -- The label has been settled twice, and stands where it stood after the first time.
      rw [ht] at hp
      exact ⟨l₀, hl₀, by rw [hb, hb₀, hf.rebind_twice], hp₀.trans hp⟩

/-- One turn of a loop. -/
theorem settles (hf : Rests f rebind) {d : Diagram R} (h : d.Sound) {id : Value R}
    (hid : id ∈ d.labels.ids) : ∃ t, (f id).outcome d = (.ok (), t) ∧ Settles rebind d t := by
  obtain ⟨n, hn⟩ := h.orderly
  obtain ⟨l, hl⟩ : ∃ l, d.labelUnder id = .ok l := by
    obtain ⟨i, -, rfl⟩ := hn.id_eq (s := .labels) hid
    obtain ⟨e, he⟩ := Option.isSome_iff_exists.1
      (show (d.labels.find? (intKey i)).isSome = true from Collection.contains_iff.2 ⟨_, hid, rfl⟩)
    obtain ⟨j, -, hadm, -⟩ := hn.of_find? (s := .labels) he
    have hlook : lookUp d.labels (.int i) = .ok e :=
      lookUp_eq_ok.2 ⟨_, expectKey_of_key? (key?_int i), he⟩
    cases e with
    | label l => exact ⟨l, bind_eq_ok.2 ⟨_, hlook, rfl⟩⟩
    | _ => cases hadm
  have hm := h.mem_of_labelUnder hl
  obtain ⟨hs, -⟩ := h.label hm
  obtain ⟨p, hp, hpair⟩ := h.resolve hm
  have hout := hf.turn hl hp
  have ho := hf.keeps n id d hn
  rw [hout] at ho
  have hlook := (hn.of_labelUnder hl).1
  -- Either way the label stands where it stood, and is there.
  have hnew : (⟨l.id, p, l.text, rebind l.binding⟩ : Label R).IsSound ∧
      (d.resolve ⟨l.id, p, l.text, rebind l.binding⟩).result = .ok p := by
    rcases hf.rebind_eq l.binding with hb | hb
    · rw [hb]
      exact ⟨hs.moved hpair, resolve_settled hp⟩
    · rw [hb]
      exact ⟨hs.freed hpair, d.resolve_of_unbound rfl⟩
  have hsound := (h.follows_replaceLabel ho hnew.1 (.before l hm hp)).sound
  refine ⟨_, hout, hsound, rfl, hn.ids_replaced (s := .labels) _ hlook .labels, fun l' hl' => ?_⟩
  rcases Collection.mem_values_insert hl' with hl' | hl'
  · cases hl'
    exact .inr ⟨hnew.2, l, hm, rfl, hp⟩
  · exact .inl hl'

/-- A loop over some labels succeeds, since none of them can fail. -/
theorem loop (hf : Rests f rebind) : ∀ {ids : List (Value R)} {d : Diagram R}, d.Sound →
    (∀ id ∈ ids, id ∈ d.labels.ids) →
    ∃ t, (forEach f ids).outcome d = (.ok (), t) ∧ Settles rebind d t
  | [], d, h, _ => ⟨d, rfl, h, rfl, rfl, fun _ hl => .inl hl⟩
  | id :: ids, d, h, hids => by
    obtain ⟨t, ht, hs⟩ := hf.settles h (hids id List.mem_cons_self)
    have hrest : ∀ i ∈ ids, i ∈ t.labels.ids := by
      intro i hi
      rw [hs.ids_eq]
      exact hids i (List.mem_cons_of_mem _ hi)
    obtain ⟨u, hu, hs'⟩ := hf.loop hs.sound hrest
    refine ⟨u, ?_, hf.trans hs hs'⟩
    rw [outcome_forEach_cons, ht]
    exact hu

end Rests

/-- The labels bound to an edge are found among any labels. -/
theorem boundAmong_labels (edge : Value R) : ∀ {es : List (Value R × Element R)},
    (∀ x ∈ es, ∃ l b, x.2 = .label l ∧ l.bound? = .ok b) →
    ∃ ids, boundAmong edge es = .ok ids ∧ ∀ id ∈ ids, id ∈ es.map Prod.fst
  | [], _ => ⟨[], rfl, by simp⟩
  | (id, e) :: es, h => by
    obtain ⟨l, b, rfl, hb⟩ := h (id, e) List.mem_cons_self
    obtain ⟨ids, hids, hsub⟩ := boundAmong_labels edge fun x hx => h x (List.mem_cons_of_mem _ hx)
    refine ⟨_, bind_eq_ok.2 ⟨l, rfl, bind_eq_ok.2 ⟨b, hb, bind_eq_ok.2 ⟨ids, hids, rfl⟩⟩⟩, ?_⟩
    intro i hi
    rw [List.map_cons, List.mem_cons]
    cases b with
    | none => exact .inr (hsub i hi)
    | some b =>
      dsimp only at hi
      split at hi
      · exact (List.mem_cons.1 hi).imp_right (hsub i)
      · exact .inr (hsub i hi)

theorem Sound.labelsBoundTo {d : Diagram R} (h : d.Sound) (edge : Value R) :
    ∃ ids, d.labelsBoundTo edge = .ok ids ∧ ∀ id ∈ ids, id ∈ d.labels.ids := by
  obtain ⟨n, hn⟩ := h.orderly
  refine boundAmong_labels edge fun x hx => ?_
  have hadm := hn.admits (s := .labels) (List.mem_map_of_mem (f := Prod.snd) hx)
  rcases x with ⟨id, _ | _ | _ | l⟩
  case label =>
    obtain ⟨b, hb, -⟩ := (h.label (List.mem_map_of_mem (f := Prod.snd) hx)).1.binding
    exact ⟨l, b, rfl, hb⟩
  all_goals cases hadm

theorem Rests.eachBound {f : Value R → Mutation R Unit} {rebind : Value R → Value R} (hf : Rests f rebind)
    {d : Diagram R} (h : d.Sound) (edge : Value R) :
    ∃ t, eachBound f edge d = (.ok (), t) ∧ Settles rebind d t := by
  obtain ⟨ids, hids, hsub⟩ := h.labelsBoundTo edge
  unfold Diagram.eachBound
  rw [hids]
  exact hf.loop h hsub

/-! ### Changes of an edge -/

namespace Sound

variable {d : Diagram R}

/-- An edge is checked before it takes the place of the old one. -/
theorem replaceEdge (h : d.Sound) {id : Value R} {changes : List (String × Value R)} {e : Edge R}
    (he : d.changedEdgeUnder id changes = .ok e) : (d.replaceEdge id e).Sound := by
  obtain ⟨n, hn⟩ := h.orderly
  obtain ⟨ho, hcheck⟩ := hn.changedEdgeUnder he
  exact (h.follows_inserted (s := .edges) (e := .edge e) ho hcheck (by rintro l ⟨⟩)).sound

theorem updateEdge (h : d.Sound) (id : Value R) (changes : List (String × Value R)) :
    AllOrNothing (Follows d) (updateEdge id changes) d := by
  unfold AllOrNothing
  rw [outcome_updateEdge]
  rcases hc : d.changedEdgeUnder id changes with f | e
  · exact .inr ⟨f, rfl⟩
  · obtain ⟨t, ht, hs⟩ := rests_settleLabel.eachBound (h.replaceEdge hc) id
    refine .inl ⟨e, t, ?_, hs.sound, fun l hl => ?_⟩
    · dsimp only
      rw [ht]
      rfl
    · -- The edge has been replaced, so the labels are still those from before.
      rcases hs.labels l hl with hl | ⟨hp, l₀, hl₀, hbinding, hp₀⟩
      · exact .old hl
      by_cases hb : l.binding.isSome = true
      · exact .after hb hp
      · -- A label that is bound to nothing stands where it has been stored, whatever the edges are.
        rw [hbinding, Bool.not_eq_true] at hb
        have hnone : l₀.bound? = .ok none := bound?_of_isSome hb
        rw [resolve_of_unbound _ hnone, ← resolve_of_unbound d hnone] at hp₀
        exact .before l₀ hl₀ hp₀

theorem mem_values_eraseElement {k : Key} {s : Shelf} {e : Element R}
    (he : e ∈ ((Diagram.eraseElement k d).shelf s).values) : e ∈ (d.shelf s).values := by
  unfold Diagram.eraseElement at he
  split at he
  · obtain ⟨x, hx, rfl⟩ := List.mem_map.1 he
    exact List.mem_map_of_mem (Orderly.mem_entries_erased hx)
  · exact he

theorem delete (h : d.Sound) (id : Value R) : AllOrNothing (Follows d) (delete id) d := by
  obtain ⟨n, hn⟩ := h.orderly
  have hkeep := Orderly.keeps_delete n id d hn
  unfold AllOrNothing
  rw [outcome_delete] at hkeep ⊢
  rcases he : d.element id with f | e
  · exact .inr ⟨f, rfl⟩
  rw [he] at hkeep
  -- The labels of the edge have been released; if it is no edge, there are none.
  obtain ⟨t, ht, hs⟩ : ∃ t, releaseBound id e d = (.ok (), t) ∧ Settles (fun _ => .none) d t := by
    cases e with
    | edge e => exact (rests_releaseLabel id).eachBound h id
    | _ => exact ⟨d, rfl, h, rfl, rfl, fun _ hl => .inl hl⟩
  dsimp only at hkeep ⊢
  rw [ht] at hkeep ⊢
  refine .inl ⟨e, _, rfl, ⟨⟨n, hkeep⟩, fun s x hx => ?_⟩, fun l hl => ?_⟩
  · exact hs.sound.elements s x (mem_values_eraseElement hx)
  · rcases hs.labels l (mem_values_eraseElement (s := .labels) hl) with hl | ⟨-, l₀, hl₀, -, hp⟩
    · exact .old hl
    · exact .before l₀ hl₀ hp

theorem clear (h : d.Sound) : AllOrNothing (Follows d) clear d := by
  obtain ⟨n, hn⟩ := h.orderly
  refine .inl ⟨(), d.cleared, outcome_clear d, ⟨⟨n, hn.cleared⟩, fun s e he => ?_⟩, fun l hl => ?_⟩
  · cases s <;> cases he
  · cases hl

end Sound

/-! ### Requests and runs -/

namespace Sound

variable {d : Diagram R}

/-- A request either succeeds and leads to a sound diagram, or fails and changes nothing. -/
theorem perform (h : d.Sound) (q : Request R) : AllOrNothing (Follows d) (perform q) d := by
  cases q with
  | createPoint position radius =>
    exact (h.createPoint position radius).bind_pure fun p => some (Element.point p)
  | createEdge kind start finish control style =>
    exact (h.createEdge kind start finish control style).bind_pure fun e => some (Element.edge e)
  | createEllipse center rx ry color strokeWidth =>
    exact (h.createEllipse center rx ry color strokeWidth).bind_pure fun e => some (Element.ellipse e)
  | createLabel position text binding =>
    exact (h.createLabel position text binding).bind_pure fun l => some (Element.label l)
  | delete id => exact (h.delete id).bind_pure fun _ => none
  | updateEdge id changes => exact (h.updateEdge id changes).bind_pure fun _ => none
  | moveLabel id position => exact (h.moveLabel id position).bind_pure fun _ => none
  | bindLabel id edge anchor offset => exact (h.bindLabel id edge anchor offset).bind_pure fun _ => none
  | unbindLabel id => exact (h.unbindLabel id).bind_pure fun _ => none
  | clear => exact h.clear.bind_pure fun _ => none

theorem after (h : d.Sound) (q : Request R) : (d.after q).Sound :=
  (h.perform q).keeps h fun _ ht => ht.sound

theorem run : ∀ {d : Diagram R}, d.Sound → ∀ qs : List (Request R), (d.run qs).Sound
  | _, h, [] => h
  | _, h, q :: qs => (h.after q).run qs

end Sound

end Diagram

theorem IsReadable.isSound {e : Element R} (h : IsReadable e) : e.IsSound := by
  cases e with
  | point | edge | ellipse => exact h
  | label l =>
    obtain ⟨⟨t, ht, htext, -⟩, hp, hb⟩ := h
    refine ⟨hp.isNumberPair, ⟨t, ht, htext⟩, none, ?_, by simp⟩
    unfold Label.bound?
    rw [hb]

namespace Diagram

theorem IsStart.sound {d : Diagram R} (h : d.IsStart) : d.Sound := by
  refine ⟨h.isOrderly, ?_⟩
  rcases h with rfl | ⟨codec, text, h⟩
  · intro s e he
    cases s <;> cases he
  · exact fun s e he => (readable_ofText h s e he).2.isSound

/-- Whatever has been requested before: a request that is refused, for whatever reason, leaves every
collection with its order, every element and the next id as they were. -/
theorem run_atomic {start : Diagram R} (hs : start.IsStart) (qs : List (Request R)) (q : Request R)
    {e : Fault R} (he : ((Diagram.perform q).outcome (start.run qs)).1 = .error e) :
    ((Diagram.perform q).outcome (start.run qs)).2 = start.run qs :=
  ((hs.sound.run qs).perform q).unchanged he

/-- A position on the horizontal axis. -/
def alongAxis (x : Nat) : Value Float := .tuple [realNumber x, realNumber 0]

/-- An edge, and a label that is bound to its middle at some distance. -/
def tiedRequests (distance : Nat) : List (Request Float) :=
  [.createEdge (.text "straight") (alongAxis 0) (alongAxis 0) .none .none,
   .createLabel (alongAxis 0) (.text "p") (Binding.value ⟨.int 1, .text "mid", alongAxis distance⟩)]

/-- An edge that has a label is not moved out of bounds. -/
theorem run_atomic_tied : (empty : Diagram Float).IsStart ∧ ∃ e,
    ((Diagram.perform (.updateEdge (.int 1) [("start", alongAxis 2000000000)])).outcome
      ((empty : Diagram Float).run (tiedRequests 5))).1 = .error e ∧
    ((Diagram.perform (.updateEdge (.int 1) [("start", alongAxis 2000000000)])).outcome
      ((empty : Diagram Float).run (tiedRequests 5))).2 =
      (empty : Diagram Float).run (tiedRequests 5) := by
  have hs : (empty : Diagram Float).IsStart := .inl rfl
  have hfails : ((Diagram.perform (.updateEdge (.int 1) [("start", alongAxis 2000000000)])).outcome
      ((empty : Diagram Float).run (tiedRequests 5))).1.isOk = false := by decide +kernel
  refine ⟨hs, ?_⟩
  rcases hr : ((Diagram.perform (.updateEdge (.int 1) [("start", alongAxis 2000000000)])).outcome
      ((empty : Diagram Float).run (tiedRequests 5))).1 with e | a
  · exact ⟨e, rfl, run_atomic hs (tiedRequests 5) _ hr⟩
  · rw [hr] at hfails
    cases hfails

end Diagram

end FeynmanTikz
