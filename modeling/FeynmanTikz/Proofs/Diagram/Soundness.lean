/-
What every stored element is, and where every label stands.

The checks of a mutation look at a label before its position is computed from its binding, so a
stored position need not be within bounds.  Everything else that the checks ask for stays true:

* `Element.IsSound`: an element satisfies its rules, but for the bound on the position of a label,
* `Diagram.Sound`: ids and references are in order and every element is sound,
* `Sound.resolve`: in such a diagram every label stands at some pair of numbers,
* `isValid_iff`: a sound label satisfies all its rules just if its position is within bounds,
* `Sound.check_eq_ok`: a stored element passes its check, unless it is a label out of bounds.

Design notes.
* Soundness is what carries `Sound.resolve`, and this is what the loops over the labels of an edge
  rest on: after the edge has been written, no label may fail any more.
-/
import FeynmanTikz.Proofs.Diagram.Placement
import FeynmanTikz.Proofs.Diagram.Preservation

namespace FeynmanTikz

variable {R : Type} [Arithmetic R]

/-- Whether a value is a pair of numbers, within bounds or not. -/
def IsNumberPair (v : Value R) : Prop := ∃ x y, IsPair v x y

omit [Arithmetic R] in
theorem isNumberPair_pair (x y : Scalar R) : IsNumberPair (Value.pair x y) :=
  ⟨x, y, isPair_pair x y⟩

theorem IsPosition.isNumberPair {v : Value R} (h : IsPosition v) : IsNumberPair v := by
  obtain ⟨x, y, hv, -, -⟩ := h
  exact ⟨x, y, hv⟩

/-- Whether a binding names a known anchor and an offset within bounds. -/
structure Binding.IsSound (b : Binding R) : Prop where
  anchor : ∃ t ∈ anchors, b.anchor = .text t
  offset : IsPosition b.offset

/-- The rules a label satisfies wherever it stands. -/
structure Label.IsSound (l : Label R) : Prop where
  position : IsNumberPair l.position
  text : ∃ t, l.text = .text t ∧ IsLabelText t.toList
  binding : ∃ b, l.bound? = .ok b ∧ ∀ c ∈ b, c.IsSound

theorem Label.IsValid.isSound {l : Label R} {edges : List (Value R)} (h : l.IsValid edges) :
    l.IsSound := by
  obtain ⟨b, hb, hv⟩ := h.binding
  exact ⟨h.position.isNumberPair, h.text, b, hb, fun c hc => ⟨(hv c hc).anchor, (hv c hc).offset⟩⟩

/-- A sound label somewhere else. -/
theorem Label.IsSound.moved {l : Label R} (h : l.IsSound) {p : Value R} (hp : IsNumberPair p) :
    ({ l with position := p } : Label R).IsSound := ⟨hp, h.text, h.binding⟩

/-- A sound label somewhere else, bound to nothing. -/
theorem Label.IsSound.freed {l : Label R} (h : l.IsSound) {p : Value R} (hp : IsNumberPair p) :
    ({ l with position := p, binding := .none } : Label R).IsSound :=
  ⟨hp, h.text, none, rfl, by simp⟩

/-- The rules an element satisfies, but for the bound on the position of a label. -/
def Element.IsSound : Element R → Prop
  | .point p => p.check = .ok ()
  | .edge e => e.check = .ok ()
  | .ellipse e => e.check = .ok ()
  | .label l => l.IsSound

/-- The key of a value that can be found again is the one it is looked up by. -/
theorem expectKey_of_key? {v : Value R} {k : Key} (h : v.key? = some k) : v.expectKey = .ok k := by
  unfold Value.key? at h
  unfold Value.expectKey
  by_cases hf : v.isFixed = true
  · rw [if_pos hf]
    split at h
    · rw [Option.some.inj h]
    · cases h
  · rw [if_neg (by simp [hf])] at h
    cases h

namespace Diagram

/-- Ids and references are in order and every element is sound. -/
structure Sound (d : Diagram R) : Prop where
  orderly : ∃ n, d.Orderly n
  elements : ∀ s, ∀ e ∈ (d.shelf s).values, e.IsSound

/-- Where a label stands depends on the edges and on nothing else of a diagram. -/
theorem resolve_congr {d t : Diagram R} (h : t.edges = d.edges) (l : Label R) :
    t.resolve l = d.resolve l := by
  unfold resolve
  rw [h]

/-- A label that has been put where it stands, stands there. -/
theorem resolve_settled {d : Diagram R} {l : Label R} {p : Value R}
    (h : (d.resolve l).result = .ok p) :
    (d.resolve { l with position := p }).result = .ok p := by
  unfold resolve at h ⊢
  rw [Logged.result_bind, bind_eq_ok] at h
  obtain ⟨b, hb, h⟩ := h
  have hb' : (liftM ({ l with position := p } : Label R).bound? : Logged R _).result = .ok b := hb
  rw [Logged.result_bind, hb', ok_bind]
  cases b with
  | none => rfl
  | some b =>
    rw [Logged.result_bind, bind_eq_ok] at h
    obtain ⟨k, hk, h⟩ := h
    dsimp only
    rw [Logged.result_bind, hk, ok_bind]
    -- A position that is given back as it was is the new one now.
    cases he : d.edges.find? k with
    | none => rfl
    | some e =>
      rw [he] at h
      exact h

namespace Orderly

variable {d : Diagram R} {n : Int}

/-- Under the key of an edge that is there stands an edge. -/
theorem edge_of_isLive (h : d.Orderly n) {target : Value R} (ht : d.IsLive target) :
    ∃ k e, target.expectKey = .ok k ∧ d.edges.find? k = some (.edge e) ∧
      .edge e ∈ d.edges.values := by
  obtain ⟨k, hk, hc⟩ := ht
  obtain ⟨e, he⟩ := Option.isSome_iff_exists.1 (show (d.edges.find? k).isSome = true from hc)
  obtain ⟨i, -, hadm, hm⟩ := h.of_find? (s := .edges) he
  cases e with
  | edge e =>
    exact ⟨k, e, expectKey_of_key? hk, he, List.mem_map_of_mem (f := Prod.snd) hm⟩
  | _ => cases hadm

end Orderly

/-- A binding that a label has leads to an edge that is there. -/
theorem Tied.isLive {d : Diagram R} {l : Label R} {b : Binding R} (ht : d.Tied l)
    (hb : l.bound? = .ok (some b)) : d.IsLive b.target := by
  rcases ht with hnone | ⟨b', hb', hlive⟩
  · unfold Label.bound? at hb
    rw [hnone] at hb
    cases hb
  · obtain rfl : b' = b := by simpa [hb] using hb'.symm
    exact hlive

/-- A sound label that leads to an edge that is there satisfies all its rules just if it stands
within bounds. -/
theorem isValid_iff {d : Diagram R} {l : Label R} (hl : l.IsSound) (ht : d.Tied l) :
    l.IsValid d.edges.ids ↔ IsPosition l.position := by
  constructor
  · intro hv
    exact hv.position
  · intro hp
    obtain ⟨b, hb, hs⟩ := hl.binding
    refine ⟨hp, hl.text, b, hb, fun c hc => ⟨(hs c hc).anchor, (hs c hc).offset, ?_⟩⟩
    obtain rfl : b = some c := hc
    obtain ⟨k, hk, hlive⟩ := ht.isLive hb
    exact ⟨k, expectKey_of_key? hk, Collection.contains_iff.1 hlive⟩

namespace Sound

variable {d : Diagram R}

theorem edge (h : d.Sound) {e : Edge R} (he : .edge e ∈ d.edges.values) : e.IsValid :=
  Edge.check_eq_ok.1 (h.elements .edges _ he)

theorem label (h : d.Sound) {l : Label R} (hl : .label l ∈ d.labels.values) :
    l.IsSound ∧ d.Tied l := by
  obtain ⟨n, hn⟩ := h.orderly
  exact ⟨h.elements .labels _ hl, hn.live l hl⟩

/-- Every label stands at some pair of numbers. -/
theorem resolve_tied (h : d.Sound) {l : Label R} (hl : l.IsSound) (ht : d.Tied l) :
    ∃ p, (d.resolve l).result = .ok p ∧ IsNumberPair p := by
  obtain ⟨n, hn⟩ := h.orderly
  obtain ⟨b, hb, hs⟩ := hl.binding
  cases b with
  | none => exact ⟨_, d.resolve_of_unbound hb, hl.position⟩
  | some b =>
    obtain ⟨hanchor, hoffset⟩ := hs b rfl
    obtain ⟨k, e, hk, he, hm⟩ := hn.edge_of_isLive (ht.isLive hb)
    obtain ⟨x, y, hp⟩ := d.resolve_real hb hk he (h.edge hm) hanchor hoffset
    exact ⟨_, hp, isNumberPair_pair _ _⟩

theorem resolve (h : d.Sound) {l : Label R} (hl : .label l ∈ d.labels.values) :
    ∃ p, (d.resolve l).result = .ok p ∧ IsNumberPair p :=
  h.resolve_tied (h.label hl).1 (h.label hl).2

end Sound

/-! ### Checks of stored elements -/

/-- The check of an element by the collection it is in. -/
def check (d : Diagram R) : Shelf → Element R → Except (Fault R) Unit
  | .points, e => e.checkAsPoint
  | .edges, e => e.checkAsEdge
  | .ellipses, e => e.checkAsEllipse
  | .labels, e => e.checkAsLabel d.edgeIds

/-- A stored element passes its check, unless it is a label out of bounds. -/
theorem Sound.check_eq_ok {d : Diagram R} (h : d.Sound) {s : Shelf} {e : Element R}
    (he : e ∈ (d.shelf s).values) :
    d.check s e = .ok () ↔ ∀ l, e = .label l → IsPosition l.position := by
  obtain ⟨n, hn⟩ := h.orderly
  have hsound := h.elements s e he
  have hadm := hn.admits he
  -- Each collection holds elements of its own kind, so its check is the one of that kind.
  rcases e with p | e | e | l
  case label =>
    cases s <;> cases hadm
    show l.check d.edgeIds = .ok () ↔ _
    rw [show d.edgeIds = .set d.edges.ids from rfl, Label.check_eq_ok,
      isValid_iff hsound (hn.live l he)]
    simp
  all_goals
    cases s <;> cases hadm
    refine ⟨fun _ => ?_, fun _ => hsound⟩
    rintro l ⟨⟩

end Diagram

end FeynmanTikz
