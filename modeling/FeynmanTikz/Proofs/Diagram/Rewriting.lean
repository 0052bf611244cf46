/-
An edge that is rewritten in every part.

An update that gives every field of an edge leaves nothing of what the edge was, so it should do what the
creation of an edge from the same parts does.  Only the default control point stands between them: a
creation computes it of the ends as they are given, an update of the pairs they have been cut to.

* `Alike`: two outcomes that differ at most in what is refused; `Edge.alike`: the check of an edge looks
  at its id in messages only,
* `AgreeUpToId`: two outcomes of an edge that differ in its id at most,
* `defaultControl_cut`: the default control point is the same for ends that are cut to their
  coordinates, and `isOk_firstTwo_of_defaultControl`: there is none for an end without two of them,
* `redrawn`: the edge that is made of given parts; `Sound.rewritten_eq` and `newEdge_eq_redrawn`: an
  update and a creation come to it,
* `rewritten_as_created`: so they agree,
* `rewriting_differs`: an end that is too short, which fails them differently.

Design notes.
* Ends with fewer than two coordinates fail both, but the creation may first fail to compute with those
  there are.
-/
import FeynmanTikz.Proofs.Diagram.Commutation
import FeynmanTikz.Proofs.Diagram.Coordinates

namespace FeynmanTikz

open Edit

variable {R : Type}

/-! ### The check of an edge under another id -/

/-- Two outcomes are the same, or the same is wrong with the elements `s` and `t`. -/
inductive Alike {α : Type} (s t : Subject) : Except (Fault R) α → Except (Fault R) α → Prop
  | same (x : Except (Fault R) α) : Alike s t x x
  | refused (p : Problem R) : Alike s t (violation s p) (violation t p)

namespace Alike

variable {α β : Type} {s t : Subject}

theorem bind {x y : Except (Fault R) α} {f g : α → Except (Fault R) β} (hx : Alike s t x y)
    (hf : ∀ a, Alike s t (f a) (g a)) : Alike s t (x >>= f) (y >>= g) := by
  cases hx with
  | same x =>
    rcases x with e | a
    · exact .same _
    · exact hf a
  | refused p => exact .refused p

theorem ite {c : Prop} [Decidable c] {x x' y y' : Except (Fault R) α} (hx : Alike s t x x')
    (hy : Alike s t y y') : Alike s t (if c then x else y) (if c then x' else y') := by
  split
  · exact hx
  · exact hy

/-- A rule that is checked before the rest. -/
theorem orRefused {c : Prop} [Decidable c] {p : Problem R} {x y : Except (Fault R) α}
    (h : Alike s t x y) : Alike s t (if c then violation s p else x) (if c then violation t p else y) :=
  (refused p).ite h

end Alike

section

variable [Arithmetic R] {s t : Subject}

theorem alike_coordinate (part : Part) (whole v : Value R) :
    Alike s t (checkCoordinate s part whole v) (checkCoordinate t part whole v) := by
  cases v with
  | number x => exact (Alike.same (isFiniteNumber x)).bind fun _ => (Alike.same _).orRefused.orRefused
  | _ => exact .refused _

theorem alike_pair (part : Part) (v : Value R) : Alike s t (checkPair s part v) (checkPair t part v) := by
  unfold checkPair
  split
  · exact (alike_coordinate _ _ _).bind fun _ => alike_coordinate _ _ _
  · exact (alike_coordinate _ _ _).bind fun _ => alike_coordinate _ _ _
  · exact .refused _

theorem alike_positive (part : Part) (v : Value R) :
    Alike s t (checkPositive s part v) (checkPositive t part v) := by
  cases v with
  | number x => exact (Alike.same (isFiniteNumber x)).bind fun _ => (Alike.same _).orRefused.orRefused.orRefused
  | _ => exact .refused _

omit [Arithmetic R] in
theorem alike_color (v : Value R) : Alike s t (checkColor s v) (checkColor t v) := by
  unfold checkColor
  split
  · exact ((Alike.same _).ite (.refused _)).orRefused
  · exact ((Alike.same _).ite (.refused _)).orRefused
  · exact .refused _

theorem Style.alike (d : Style R) : Alike s t (d.check s) (d.check t) := by
  unfold Style.check
  refine (Alike.refused _).ite ((Alike.refused _).ite ?_)
  exact (alike_color _).bind fun _ => alike_positive _ _

/-- The check of an edge looks at its id in messages only. -/
theorem Edge.alike (e : Edge R) (id : Value R) :
    Alike (.edge e.id.plain) (.edge id.plain) e.check ({ e with id } : Edge R).check := by
  have hdrawn : Alike (.edge e.id.plain) (.edge id.plain) (e.drawn >>= fun d => d.check (.edge e.id.plain))
      (e.drawn >>= fun d => d.check (.edge id.plain)) :=
    (Alike.same e.drawn).bind fun d => d.alike
  unfold Edge.check
  refine (Alike.refused _).ite ?_
  refine (alike_pair _ _).bind fun _ => (alike_pair _ _).bind fun _ => ?_
  dsimp only
  split
  · split
    · exact .refused _
    · exact (alike_pair _ _).bind fun _ => hdrawn
  · split
    · exact hdrawn
    · exact .refused _

end

variable [Arithmetic R]

/-- Two outcomes of an edge are the same up to its id: `id` in one and `id'` in the other. -/
inductive AgreeUpToId (id id' : Value R) : Except (Fault R) (Edge R) → Except (Fault R) (Edge R) → Prop
  | ok {e : Edge R} (h : e.id = id) : AgreeUpToId id id' (.ok e) (.ok { e with id := id' })
  | refused (p : Problem R) : AgreeUpToId id id' (violation (.edge id.plain) p)
      (violation (.edge id'.plain) p)
  | failed (f : Fault R) : AgreeUpToId id id' (.error f) (.error f)

/-- An edge that is checked under either id. -/
theorem AgreeUpToId.checked {id id' : Value R} {e : Edge R} (he : e.id = id)
    {x y : Except (Fault R) Unit} (h : Alike (.edge id.plain) (.edge id'.plain) x y) :
    AgreeUpToId id id' (x >>= fun _ => .ok e) (y >>= fun _ => .ok { e with id := id' }) := by
  cases h with
  | same x =>
    rcases x with f | _
    · exact .failed f
    · exact .ok he
  | refused p => exact .refused p

namespace AgreeUpToId

variable {id id' : Value R} {x y : Except (Fault R) (Edge R)}

theorem isOk_eq (h : AgreeUpToId id id' x y) : x.isOk = y.isOk := by
  cases h <;> rfl

theorem eq_ok {e : Edge R} (h : AgreeUpToId id id' (.ok e) y) : y = .ok { e with id := id' } := by
  cases h
  rfl

end AgreeUpToId

/-! ### The default control point -/

theorem item_of_firstTwo {v p : Value R} (h : v.firstTwo = .ok p) :
    p.item 0 = v.item 0 ∧ p.item 1 = v.item 1 := by
  obtain ⟨x, y, hx, hy, rfl⟩ := Diagram.firstTwo_eq_ok.1 h
  exact ⟨hx.symm, hy.symm⟩

/-- The default control point is computed of the coordinates of both ends. -/
theorem defaultControl_cut {start finish p q : Value R} (hp : start.firstTwo = .ok p)
    (hq : finish.firstTwo = .ok q) : defaultControl p q = defaultControl start finish := by
  have hpx : p.x = start.x := (item_of_firstTwo hp).1
  have hpy : p.y = start.y := (item_of_firstTwo hp).2
  have hqx : q.x = finish.x := (item_of_firstTwo hq).1
  have hqy : q.y = finish.y := (item_of_firstTwo hq).2
  unfold defaultControl Vec.sub
  rw [hpx, hpy, hqx, hqy]

/-- A pair of formulas that can be computed is a pair. -/
theorem firstTwo_ofFormulas {x y : Computed R} {v : Value R} (h : Vec.ofFormulas x y = .ok v) :
    v.firstTwo = .ok v := by
  obtain ⟨a, -, h⟩ := bind_eq_ok.1 h
  obtain ⟨b, -, h⟩ := bind_eq_ok.1 h
  cases h
  rfl

theorem firstTwo_defaultControl {start finish v : Value R} (h : defaultControl start finish = .ok v) :
    v.firstTwo = .ok v := by
  unfold defaultControl at h
  simp only [bind_eq_ok] at h
  obtain ⟨_, -, _, -, _, -, _, -, _, -, _, -, _, -, _, -, h⟩ := h
  exact firstTwo_ofFormulas h

/-- A difference that can be computed has two operands. -/
theorem operands_of_sub {a b : Computed R} {v : Value R} (h : (a - b).result = .ok v) :
    (∃ x, a = .ok x) ∧ ∃ y, b = .ok y := by
  rcases a with e | x
  · cases h
  · rcases b with e | y
    · cases h
    · exact ⟨⟨x, rfl⟩, y, rfl⟩

theorem isOk_firstTwo {v x y : Value R} (hx : v.x = .ok x) (hy : v.y = .ok y) :
    v.firstTwo.isOk = true := by
  unfold Value.firstTwo
  rw [show v.item 0 = .ok x from hx, show v.item 1 = .ok y from hy]
  rfl

/-- There is no default control point where an end has no two coordinates. -/
theorem isOk_firstTwo_of_defaultControl {start finish v : Value R}
    (h : defaultControl start finish = .ok v) :
    start.firstTwo.isOk = true ∧ finish.firstTwo.isOk = true := by
  unfold defaultControl Vec.sub at h
  obtain ⟨d, hd, -⟩ := bind_eq_ok.1 h
  obtain ⟨x, hx, hd⟩ := bind_eq_ok.1 hd
  obtain ⟨y, hy, -⟩ := bind_eq_ok.1 hd
  obtain ⟨⟨fx, hfx⟩, sx, hsx⟩ := operands_of_sub hx
  obtain ⟨⟨fy, hfy⟩, sy, hsy⟩ := operands_of_sub hy
  exact ⟨isOk_firstTwo hsx hsy, isOk_firstTwo hfx hfy⟩

/-- Whether both ends have two coordinates, if a default control point is computed of them. -/
def EndsFit (kind start finish control : Value R) : Prop :=
  kind.isWord "curve" = true → control = .none →
    start.firstTwo.isOk = true ∧ finish.firstTwo.isOk = true

namespace Diagram

/-- Changes of every field of an edge. -/
def allFields (kind start finish control style : Value R) : List (String × Value R) :=
  [("kind", kind), ("start", start), ("end", finish), ("control", control), ("style", style)]

/-- The edge that is made of given parts.  A default control point is computed of what the ends have been
cut to. -/
def redrawn (kind start finish control : Value R) (style : Style R) (id : Value R) :
    Except (Fault R) (Edge R) := do
  let start ← start.firstTwo
  let finish ← finish.firstTwo
  let control ← optionalPair control
  let control ← (controlOrDefault kind start finish control).result
  let e : Edge R := { id, kind, start, finish, control, style := style.value }
  e.check
  return e

section

variable (kind control : Value R) {start finish : Value R} (style : Style R)

/-- The id of an edge decides nothing else. -/
theorem redrawn_agree (id id' : Value R) :
    AgreeUpToId id id' (redrawn kind start finish control style id)
      (redrawn kind start finish control style id') := by
  unfold redrawn
  rcases start.firstTwo with f | p
  · exact .failed f
  rcases finish.firstTwo with f | q
  · exact .failed f
  rcases optionalPair control with f | c
  · exact .failed f
  simp only [ok_bind]
  rcases (controlOrDefault kind p q c).result with f | c'
  · exact .failed f
  simp only [ok_bind]
  exact .checked rfl (Edge.alike { id, kind, start := p, finish := q, control := c', style := style.value } id')

/-- An update that gives every field of an edge keeps nothing but its id. -/
theorem changedEdge_allFields (old : Edge R) (hs : start ≠ .none) (hf : finish ≠ .none) :
    (do
      let e ← (changedEdge old (allFields kind start finish control style.value)).result
      e.check
      return e) = redrawn kind start finish control style old.id := by
  have hpair {v : Value R} (hv : v ≠ .none) : optionalPair v = v.firstTwo := by
    cases v with
    | none => exact absurd rfl hv
    | _ => rfl
  have hstart : changedPair (allFields kind start finish control style.value) "start" old.start =
      start.firstTwo := hpair hs
  have hfinish : changedPair (allFields kind start finish control style.value) "end" old.finish =
      finish.firstTwo := hpair hf
  have hcontrol : changedControl (allFields kind start finish control style.value) old.control =
      optionalPair control := rfl
  unfold changedEdge redrawn
  rw [hstart, hfinish, hcontrol]
  simp only [Logged.result_bind, bind_assoc]
  rfl

theorem controlOrDefault_needed (hk : kind.isWord "curve" = true) (a b : Value R) :
    (controlOrDefault kind a b .none).result = defaultControl a b := by
  unfold controlOrDefault
  rw [hk]
  rfl

theorem controlOrDefault_unneeded (h : ¬(kind.isWord "curve" = true ∧ control = .none)) (a b : Value R) :
    (controlOrDefault kind a b control).result = .ok control := by
  cases hs : control.isSome with
  | true => exact controlOrDefault_of_isSome kind a b hs
  | false =>
    obtain rfl : control = .none := by
      cases control with
      | none => rfl
      | _ => cases hs
    have hk : kind.isWord "curve" = false := Bool.eq_false_iff.2 fun hk => h ⟨hk, rfl⟩
    unfold controlOrDefault
    rw [hk]
    rfl

/-- A control point that is cut is there if it was. -/
theorem optionalPair_eq_none {v c : Value R} (h : optionalPair v = .ok c) (hc : c = .none) : v = .none := by
  cases v with
  | none => rfl
  | _ =>
    have hsome := isSome_of_firstTwo h
    rw [hc] at hsome
    cases hsome

/-- If the ends fit, it makes no difference that a creation computes the default control point before it
cuts them. -/
theorem newEdge_eq_redrawn (d : Diagram R) (h : EndsFit kind start finish control) :
    d.newEdge kind start finish control style.value =
      redrawn kind start finish control style (.number d.next) := by
  unfold newEdge redrawn
  by_cases hneeded : kind.isWord "curve" = true ∧ control = .none
  · obtain ⟨hk, rfl⟩ := hneeded
    obtain ⟨hs, hf⟩ := h hk rfl
    obtain ⟨p, hp⟩ := exists_of_isOk hs
    obtain ⟨q, hq⟩ := exists_of_isOk hf
    have hnone : optionalPair (.none : Value R) = .ok .none := rfl
    simp only [hp, hq, hnone, ok_bind, controlOrDefault_needed kind hk, defaultControl_cut hp hq]
    rcases hc : defaultControl start finish with f | c
    · rfl
    · simp only [ok_bind, optionalPair_of_firstTwo (firstTwo_defaultControl hc)]
      rfl
  · rw [controlOrDefault_unneeded kind control hneeded, ok_bind]
    refine bind_congr fun p => bind_congr fun q => ?_
    rcases hc : optionalPair control with f | c
    · rfl
    · have hcut : ¬(kind.isWord "curve" = true ∧ c = .none) :=
        fun hcut => hneeded ⟨hcut.1, optionalPair_eq_none hc hcut.2⟩
      rw [ok_bind, ok_bind, controlOrDefault_unneeded kind c hcut]
      rfl

/-- If they do not, neither succeeds. -/
theorem not_isOk_of_not_endsFit (h : ¬EndsFit kind start finish control) :
    (∀ d : Diagram R, (d.newEdge kind start finish control style.value).isOk = false) ∧
      ∀ id, (redrawn kind start finish control style id).isOk = false := by
  obtain ⟨hk, rfl, hends⟩ : kind.isWord "curve" = true ∧ control = .none ∧
      ¬(start.firstTwo.isOk = true ∧ finish.firstTwo.isOk = true) := by
    unfold EndsFit at h
    push Not at h
    obtain ⟨hk, hc, hs⟩ := h
    exact ⟨hk, hc, fun hboth => hs hboth.1 hboth.2⟩
  constructor
  · intro d
    unfold newEdge
    rw [controlOrDefault_needed kind hk]
    rcases hc : defaultControl start finish with f | c
    · rfl
    · exact absurd (isOk_firstTwo_of_defaultControl hc) hends
  · intro id
    unfold redrawn
    rcases hs : start.firstTwo with f | p
    · rfl
    rcases hf : finish.firstTwo with f | q
    · rfl
    · rw [hs, hf] at hends
      exact absurd ⟨rfl, rfl⟩ hends

end

/-! ### In every diagram that can be reached -/

/-- What the creation of an edge comes to. -/
def created (d : Diagram R) (kind start finish control : Value R) (style : Style R) :
    Except (Fault R) (Edge R) :=
  ((createEdge kind start finish control style.value).outcome d).1

/-- What an update of every field of the edge under an id comes to. -/
def rewritten (d : Diagram R) (id kind start finish control : Value R) (style : Style R) :
    Except (Fault R) (Edge R) :=
  ((updateEdge id (allFields kind start finish control style.value)).outcome d).1

theorem created_eq (d : Diagram R) (kind start finish control : Value R) (style : Style R) :
    d.created kind start finish control style = d.newEdge kind start finish control style.value := by
  unfold created
  rw [outcome_createEdge]
  rcases d.newEdge kind start finish control style.value with f | e <;> rfl

/-- An update of every field depends on the edge only by its id. -/
theorem Sound.rewritten_eq {d : Diagram R} (h : d.Sound) {id : Value R} {old : Edge R}
    (hold : d.element id = .ok (.edge old)) (kind control : Value R) {start finish : Value R}
    (style : Style R) (hs : start ≠ .none) (hf : finish ≠ .none) :
    d.rewritten id kind start finish control style =
      redrawn kind start finish control style old.id := by
  obtain ⟨i, hi, hfind⟩ := h.find?_of_element hold
  have hlook : lookUp d.edges id = .ok (.edge old) :=
    lookUp_eq_ok.2 ⟨_, expectKey_of_key? hi, hfind⟩
  have hfields : unknownFields (allFields kind start finish control style.value) = [] := by
    simp [unknownFields, allFields, edgeFields]
  have hchanged : d.changedEdgeUnder id (allFields kind start finish control style.value) =
      redrawn kind start finish control style old.id := by
    unfold changedEdgeUnder
    rw [hlook, ok_bind, hfields]
    exact changedEdge_allFields kind control style old hs hf
  unfold rewritten
  rcases hr : redrawn kind start finish control style old.id with f | e
  · rw [outcome_updateEdge, hchanged, hr]
  · rw [h.outcome_updateEdge_eq (hchanged.trans hr)]

/-- After any run, an update of every field of an edge succeeds if and only if the creation of an edge of
the same parts does, and makes the same edge but for its id.  If the ends have two coordinates wherever a
default control point is computed of them, the two also fail alike.  What the edge was before makes no
difference, whatever diagram it is in. -/
theorem rewritten_as_created {d₀ : Diagram R} (hd : d₀.IsStart) (qs : List (Request R)) {id : Value R}
    {old : Edge R} (hold : (d₀.run qs).element id = .ok (.edge old)) (kind start finish control : Value R)
    (style : Style R) (hs : start ≠ .none) (hf : finish ≠ .none) :
    ((d₀.run qs).rewritten id kind start finish control style).isOk =
      ((d₀.run qs).created kind start finish control style).isOk ∧
    (∀ e, (d₀.run qs).created kind start finish control style = .ok e →
      (d₀.run qs).rewritten id kind start finish control style = .ok { e with id := old.id }) ∧
    (EndsFit kind start finish control → AgreeUpToId (.number (d₀.run qs).next) old.id
      ((d₀.run qs).created kind start finish control style)
      ((d₀.run qs).rewritten id kind start finish control style)) ∧
    ∀ (t₀ : Diagram R) (rs : List (Request R)) (id' : Value R) (old' : Edge R), t₀.IsStart →
      (t₀.run rs).element id' = .ok (.edge old') → AgreeUpToId old.id old'.id
        ((d₀.run qs).rewritten id kind start finish control style)
        ((t₀.run rs).rewritten id' kind start finish control style) := by
  have hsound : (d₀.run qs).Sound := hd.sound.run qs
  have hrewritten := hsound.rewritten_eq hold kind control style hs hf
  have hagree (h : EndsFit kind start finish control) : AgreeUpToId (.number (d₀.run qs).next) old.id
      ((d₀.run qs).created kind start finish control style)
      ((d₀.run qs).rewritten id kind start finish control style) := by
    rw [hrewritten, created_eq, newEdge_eq_redrawn kind control style _ h]
    exact redrawn_agree kind control style _ _
  have hfails (h : ¬EndsFit kind start finish control) := not_isOk_of_not_endsFit kind control style h
  refine ⟨?_, fun e he => ?_, hagree, fun t₀ rs id' old' ht hold' => ?_⟩
  · by_cases h : EndsFit kind start finish control
    · exact (hagree h).isOk_eq.symm
    · rw [hrewritten, created_eq, (hfails h).1, (hfails h).2]
  · have h : EndsFit kind start finish control := by
      by_contra h
      have hfail := (hfails h).1 (d₀.run qs)
      rw [← created_eq, he] at hfail
      cases hfail
    have hboth := hagree h
    rw [he] at hboth
    exact hboth.eq_ok
  · have ht : (t₀.run rs).Sound := ht.sound.run rs
    rw [hrewritten, ht.rewritten_eq hold' kind control style hs hf]
    exact redrawn_agree kind control style _ _

/-- A straight edge. -/
def edgeRequests : List (Request Float) :=
  [.createEdge (.text "straight") (alongAxis 0) (alongAxis 9) .none .none]

/-- A straight edge is rewritten as a curve without a control point. -/
theorem rewritten_as_created_curve : (empty : Diagram Float).IsStart ∧
    ∃ old e, ((empty : Diagram Float).run edgeRequests).element (.int 1) = .ok (.edge old) ∧
      ((empty : Diagram Float).run edgeRequests).created (.text "curve") (alongAxis 0) (alongAxis 7) .none
        Style.standard = .ok e ∧
      ((empty : Diagram Float).run edgeRequests).rewritten (.int 1) (.text "curve") (alongAxis 0)
        (alongAxis 7) .none Style.standard = .ok { e with id := old.id } := by
  have hs : (empty : Diagram Float).IsStart := .inl rfl
  have hedge : (edgeOf? (((empty : Diagram Float).run edgeRequests).element (.int 1))).isSome = true := by
    decide +kernel
  have hcreated : (((empty : Diagram Float).run edgeRequests).created (.text "curve") (alongAxis 0)
      (alongAxis 7) .none Style.standard).isOk = true := by
    decide +kernel
  obtain ⟨old, hold⟩ := eq_edge_of_edgeOf? hedge
  obtain ⟨e, he⟩ := exists_of_isOk hcreated
  obtain ⟨-, hsame, -⟩ := rewritten_as_created hs edgeRequests hold (.text "curve") (alongAxis 0)
    (alongAxis 7) .none Style.standard (by rintro ⟨⟩) (by rintro ⟨⟩)
  exact ⟨hs, old, e, hold, he, hsame e he⟩

/-- An end that is too short, and one that does not start with a number. -/
theorem rewriting_differs : (empty : Diagram Float).IsStart ∧
    (∃ old, ((empty : Diagram Float).run edgeRequests).element (.int 1) = .ok (.edge old)) ∧
    ((empty : Diagram Float).run edgeRequests).created (.text "curve") (.list [realNumber 0])
      (.list [.text "a", realNumber 0]) .none Style.standard = .error .wrongType ∧
    ((empty : Diagram Float).run edgeRequests).rewritten (.int 1) (.text "curve") (.list [realNumber 0])
      (.list [.text "a", realNumber 0]) .none Style.standard = .error .outOfBounds := by
  have hedge : (edgeOf? (((empty : Diagram Float).run edgeRequests).element (.int 1))).isSome = true := by
    decide +kernel
  have hs : (empty : Diagram Float).IsStart := .inl rfl
  obtain ⟨old, hold⟩ := eq_edge_of_edgeOf? hedge
  refine ⟨hs, ⟨old, hold⟩, rfl, ?_⟩
  exact ((hs.sound.run edgeRequests).rewritten_eq hold _ _ _ (by rintro ⟨⟩) (by rintro ⟨⟩)).trans rfl

end Diagram

end FeynmanTikz
