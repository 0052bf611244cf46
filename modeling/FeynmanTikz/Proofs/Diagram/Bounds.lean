/-
Labels out of bounds.

A mutation checks the position of a bound label before it computes it from the anchor and the offset,
and it never looks at the labels that move along with an edge.  Such a label may come to stand
further away than any position that is accepted.

* `Near`, `StandsNear`: no label is stored, or stands, out of bounds,
* `Follows.near`: an edit stores no label out of bounds, if none stands there before or after it,
* `run_checked`: after every run, every stored element passes its check unless it is a label out of
  bounds, and there is none if no label has ever stood there,
* `carried_label_unchecked`: a run that leaves a label out of bounds.
-/
import FeynmanTikz.Proofs.Diagram.Atomicity
import Mathlib.Data.List.Infix

namespace FeynmanTikz.Diagram

open Edit

variable {R : Type} [Arithmetic R]

/-- Every label is stored within bounds. -/
def Near (d : Diagram R) : Prop := ∀ l, .label l ∈ d.labels.values → IsPosition l.position

/-- Every label stands within bounds: an unbound one where it is stored, a bound one where its
binding leads. -/
def StandsNear (d : Diagram R) : Prop :=
  ∀ l, .label l ∈ d.labels.values → ∃ p, (d.resolve l).result = .ok p ∧ IsPosition p

instance (v : Value R) : Decidable (IsPosition v) :=
  decidable_of_iff ((checkPair (.named "") .position v).isOk = true) <| by
    constructor
    · intro h
      obtain ⟨⟨⟩, hok⟩ := exists_of_isOk h
      exact checkPair_eq_ok.1 hok
    · intro h
      rw [checkPair_eq_ok.2 h]
      rfl

/-- Whether a label stands within bounds, as far as an element is one. -/
def standsNear (d : Diagram R) : Element R → Bool
  | .label l => match (d.resolve l).result with
    | .ok p => decide (IsPosition p)
    | .error _ => false
  | _ => true

theorem standsNear_label {d : Diagram R} {l : Label R} :
    d.standsNear (.label l) = true ↔ ∃ p, (d.resolve l).result = .ok p ∧ IsPosition p := by
  unfold standsNear
  dsimp only
  cases (d.resolve l).result with
  | ok p => simp
  | error e => simp

instance (d : Diagram R) : Decidable d.StandsNear :=
  decidable_of_iff (∀ e ∈ d.labels.values, d.standsNear e = true) <| by
    constructor
    · exact fun h l hl => standsNear_label.1 (h _ hl)
    · intro h e he
      cases e with
      | label l => exact standsNear_label.2 (h l he)
      | _ => rfl

/-- An edit stores no label out of bounds, if none stands there before or after it. -/
theorem Follows.near {d t : Diagram R} (h : Follows d t) (hn : d.Near) (hd : d.StandsNear)
    (ht : t.StandsNear) : t.Near := by
  intro l hl
  have of_result {m : Logged R (Value R)} (hm : ∃ p, m.result = .ok p ∧ IsPosition p)
      (hp : m.result = .ok l.position) : IsPosition l.position := by
    obtain ⟨p, hr, hpos⟩ := hm
    rw [hp] at hr
    cases hr
    exact hpos
  cases h.traceable l hl with
  | old h => exact hn l h
  | checked h => exact h
  | before l₀ h hp => exact of_result (hd l₀ h) hp
  | after _ hp => exact of_result (ht l hl) hp

theorem Near.run : ∀ {qs : List (Request R)} {d : Diagram R}, d.Sound → d.Near →
    (∀ ps, ps <+: qs → (d.run ps).StandsNear) → (d.run qs).Near
  | [], d, _, hn, _ => hn
  | q :: qs, d, h, hn, hw => by
    have hbefore : d.StandsNear := hw [] List.nil_prefix
    have hafter : (d.after q).StandsNear := hw [q] (List.prefix_append [q] qs)
    have hnear : (d.after q).Near := by
      -- A request that has been refused has changed nothing.
      rcases h.perform q with ⟨a, t, ha, hf⟩ | ⟨e, he⟩
      · have heq : d.after q = t := congrArg Prod.snd ha
        rw [heq] at hafter ⊢
        exact hf.near hn hbefore hafter
      · have heq : d.after q = d := congrArg Prod.snd he
        rw [heq]
        exact hn
    show ((d.after q).run qs).Near
    refine Near.run (h.after q) hnear fun ps hps => ?_
    exact hw (q :: ps) ((List.prefix_cons_inj q).2 hps)

theorem IsStart.near {d : Diagram R} (h : d.IsStart) : d.Near := by
  intro l hl
  rcases h with rfl | ⟨codec, text, h⟩
  · cases hl
  · exact (readable_ofText h .labels _ hl).2.2.1

/-- After every run, every stored element passes its check unless it is a label out of bounds.  If no
label has ever stood out of bounds in the run, all elements pass. -/
theorem run_checked {start : Diagram R} (hs : start.IsStart) (qs : List (Request R)) :
    (∀ s, ∀ e ∈ ((start.run qs).shelf s).values,
      ((start.run qs).check s e = .ok () ↔ ∀ l, e = .label l → IsPosition l.position)) ∧
    ((∀ ps, ps <+: qs → (start.run ps).StandsNear) →
      ∀ s, ∀ e ∈ ((start.run qs).shelf s).values, (start.run qs).check s e = .ok ()) := by
  have hsound := hs.sound.run qs
  refine ⟨fun s e he => hsound.check_eq_ok he, fun hw s e he => (hsound.check_eq_ok he).2 ?_⟩
  rintro l rfl
  obtain ⟨n, hn⟩ := hsound.orderly
  obtain rfl := hn.eq_labels he
  exact Near.run hs.sound hs.near hw l he

theorem run_checked_tied : (empty : Diagram Float).IsStart ∧
    ∀ s, ∀ e ∈ (((empty : Diagram Float).run (tiedRequests 5)).shelf s).values,
      ((empty : Diagram Float).run (tiedRequests 5)).check s e = .ok () := by
  have hs : (empty : Diagram Float).IsStart := .inl rfl
  have hw : ∀ ps ∈ (tiedRequests 5).inits, ((empty : Diagram Float).run ps).StandsNear := by
    decide +kernel
  exact ⟨hs, (run_checked hs (tiedRequests 5)).2 fun ps hps => hw ps ((List.mem_inits _ _).2 hps)⟩

/-- Both ends of an edge move as far as its label is away from them. -/
def carriedRequests : List (Request Float) :=
  tiedRequests 1000000000 ++
    [.updateEdge (.int 1) [("start", alongAxis 1000000000), ("end", alongAxis 1000000000)]]

/-- The label is carried out of bounds: the diagram has been accepted before the edge moves, the move
is accepted too, and then a stored element does not pass its check. -/
theorem carried_label_unchecked :
    ((empty : Diagram Float).run (tiedRequests 1000000000)).validate = .ok () ∧
    (∃ a, ((Diagram.perform (.updateEdge (.int 1)
      [("start", alongAxis 1000000000), ("end", alongAxis 1000000000)])).outcome
        ((empty : Diagram Float).run (tiedRequests 1000000000))).1 = .ok a) ∧
    ¬∀ s, ∀ e ∈ (((empty : Diagram Float).run carriedRequests).shelf s).values,
      ((empty : Diagram Float).run carriedRequests).check s e = .ok () := by
  have hvalid : ((empty : Diagram Float).run (tiedRequests 1000000000)).validate.isOk = true := by
    decide +kernel
  have haccepted : ((Diagram.perform (.updateEdge (.int 1)
      [("start", alongAxis 1000000000), ("end", alongAxis 1000000000)])).outcome
        ((empty : Diagram Float).run (tiedRequests 1000000000))).1.isOk = true := by
    decide +kernel
  have hfails : ∃ e ∈ (((empty : Diagram Float).run carriedRequests).shelf .labels).values,
      (((empty : Diagram Float).run carriedRequests).check .labels e).isOk = false := by
    decide +kernel
  refine ⟨?_, exists_of_isOk haccepted, fun hall => ?_⟩
  · obtain ⟨⟨⟩, hok⟩ := exists_of_isOk hvalid
    exact hok
  · obtain ⟨e, he, hbad⟩ := hfails
    rw [hall .labels e he] at hbad
    cases hbad

end FeynmanTikz.Diagram
