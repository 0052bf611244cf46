/-
When a whole diagram is valid.

What validation asks of ids is part of an orderly diagram.  So in such a diagram it comes down to the
elements, and where these are sound, to the positions of the labels.

* `Orderly.checkIds`, `Orderly.checkNext`: ids of an orderly diagram pass,
* `Orderly.validate_eq_ok`: it is valid just if every element passes the check of its collection,
* `check_of_validate`, `admits_of_check`: in a valid diagram, orderly or not, every element passes that
  check, and is in the collection for its kind,
* `Sound.validate_eq_ok`: a sound one is valid just if no label is stored out of bounds.
-/
import FeynmanTikz.Proofs.Diagram.Run
import FeynmanTikz.Proofs.Diagram.Soundness

namespace FeynmanTikz.Diagram

variable {R : Type} [Arithmetic R]

theorem same_int (i j : Int) : (Value.int i : Value R).same (.int j) = (i == j) := by
  simp [Value.same, Value.int, Value.asNumber?, Scalar.same]

/-- Different whole numbers pass as ids, whatever other ones have been seen before. -/
theorem checkIds_int : ∀ is seen : List Int, is.Nodup → (∀ i ∈ is, i ∉ seen) →
    checkIds (seen.map Value.int) (is.map fun i => ((.int i : Value R), .int i)) = .ok ()
  | [], _, _, _ => rfl
  | i :: is, seen, hn, hs => by
    obtain ⟨hi, hn⟩ := List.nodup_cons.1 hn
    obtain ⟨hfresh, hs⟩ := List.forall_mem_cons.1 hs
    have hseen : ((seen.map Value.int).any fun v : Value R => v.same (.int i)) = false := by
      refine List.any_eq_false.2 fun v hv => ?_
      obtain ⟨j, hj, rfl⟩ := List.mem_map.1 hv
      rw [same_int]
      simpa using fun hji : j = i => hfresh (hji ▸ hj)
    rw [List.map_cons, checkIds, if_neg (by simp [same_int]), if_neg (by simp [hseen]),
      ← List.map_cons]
    refine checkIds_int is (i :: seen) hn fun j hj => ?_
    rw [List.mem_cons, not_or]
    exact ⟨fun hji => hi (hji ▸ hj), hs j hj⟩

namespace Orderly

variable {d : Diagram R} {n : Int}

/-- Every element is stored under its own id. -/
theorem entries_eq (h : d.Orderly n) : d.entries = d.elements.map fun e => (e.id, e.id) := by
  have key (s : Shelf) : (d.shelf s).entries.map (fun e => (e.1, e.2.id)) =
      (d.shelf s).values.map fun e => (e.id, e.id) := by
    rw [Collection.values, List.map_map]
    exact List.map_congr_left fun e he => by simp [(h.own s e he).1]
  unfold entries
  simp only [List.map_append]
  show (d.shelf .points).entries.map _ ++ (d.shelf .edges).entries.map _ ++
    (d.shelf .ellipses).entries.map _ ++ (d.shelf .labels).entries.map _ = _
  rw [key, key, key, key, ← List.map_append, ← List.map_append, ← List.map_append]
  rfl

theorem checkIds (h : d.Orderly n) : Diagram.checkIds [] d.entries = .ok () := by
  obtain ⟨is, his, hn, -⟩ := h.exists_ids
  have hentries : d.entries = is.map fun i => ((.int i : Value R), .int i) := by
    rw [h.entries_eq]
    calc d.elements.map (fun e => (e.id, e.id))
        = (d.elements.map Element.id).map fun v => (v, v) := by rw [List.map_map]; rfl
      _ = is.map fun i => ((.int i : Value R), .int i) := by rw [his, List.map_map]; rfl
  rw [hentries]
  exact checkIds_int is [] hn (by simp)

omit [Arithmetic R] in
theorem elements_ne_nil (h : d.isEmpty = false) : d.elements ≠ [] := by
  intro he
  unfold elements Collection.values at he
  simp only [List.append_eq_nil_iff, List.map_eq_nil_iff] at he
  obtain ⟨⟨⟨h₁, h₂⟩, h₃⟩, h₄⟩ := he
  rw [isEmpty, Collection.isEmpty, Collection.isEmpty, Collection.isEmpty, Collection.isEmpty, h₁, h₂,
    h₃, h₄] at h
  cases h

theorem checkNext (h : d.Orderly n) : d.checkNext = .ok () := by
  unfold Diagram.checkNext
  by_cases he : d.isEmpty = true
  · rw [if_pos he]
    rfl
  · obtain ⟨m, hm, hlt⟩ := h.maxId
    have hlt := hlt (elements_ne_nil (by simpa using he))
    have hle : d.next.le (.int m) = false := by
      rw [h.next_eq]
      simpa [Scalar.le, Scalar.reading, Reading.ofInt, Rat.intCast_le_intCast] using hlt
    rw [if_neg he, hm]
    show (if d.next.le (.int m) then _ else _) = _
    rw [hle]
    rfl

/-- An orderly diagram is valid just if every element passes the check of its collection. -/
theorem validate_eq_ok (h : d.Orderly n) :
    d.validate = .ok () ↔ ∀ s, ∀ e ∈ (d.shelf s).values, d.check s e = .ok () := by
  unfold validate
  simp only [h.checkIds, h.checkNext, ok_bind, bind_eq_ok]
  constructor
  · rintro ⟨⟨⟩, hpoints, ⟨⟩, hedges, ⟨⟩, hellipses, hlabels⟩ s
    cases s with
    | points => exact checkAll_eq_ok.1 hpoints
    | edges => exact checkAll_eq_ok.1 hedges
    | ellipses => exact checkAll_eq_ok.1 hellipses
    | labels => exact checkAll_eq_ok.1 hlabels
  · intro hc
    exact ⟨(), checkAll_eq_ok.2 (hc .points), (), checkAll_eq_ok.2 (hc .edges), (),
      checkAll_eq_ok.2 (hc .ellipses), checkAll_eq_ok.2 (hc .labels)⟩

end Orderly

/-- In a valid diagram every element passes the check of its collection. -/
theorem check_of_validate {d : Diagram R} (h : d.validate = .ok ()) (s : Shelf) :
    ∀ e ∈ (d.shelf s).values, d.check s e = .ok () := by
  obtain ⟨⟨⟩, -, h⟩ := bind_eq_ok.1 h
  obtain ⟨⟨⟩, -, h⟩ := bind_eq_ok.1 h
  obtain ⟨⟨⟩, hpoints, h⟩ := bind_eq_ok.1 h
  obtain ⟨⟨⟩, hedges, h⟩ := bind_eq_ok.1 h
  obtain ⟨⟨⟩, hellipses, hlabels⟩ := bind_eq_ok.1 h
  cases s with
  | points => exact checkAll_eq_ok.1 hpoints
  | edges => exact checkAll_eq_ok.1 hedges
  | ellipses => exact checkAll_eq_ok.1 hellipses
  | labels => exact checkAll_eq_ok.1 hlabels

/-- Only an element of its own kind passes the check of a collection. -/
theorem admits_of_check {d : Diagram R} {s : Shelf} {e : Element R} (h : d.check s e = .ok ()) :
    s.admits e = true := by
  cases s with
  | points =>
    cases e with
    | point p => rfl
    | label l =>
      obtain ⟨_, -, h⟩ := bind_eq_ok.1 h
      cases h
    | edge | ellipse => cases h
  | edges =>
    cases e with
    | edge e => rfl
    | point | ellipse | label => cases h
  | ellipses =>
    cases e with
    | ellipse e => rfl
    | point | edge | label => cases h
  | labels =>
    cases e with
    | label l => rfl
    | point p =>
      obtain ⟨_, -, h⟩ := bind_eq_ok.1 h
      cases h
    | edge | ellipse => cases h

/-- A sound diagram is valid just if no label is stored out of bounds. -/
theorem Sound.validate_eq_ok {d : Diagram R} (h : d.Sound) :
    d.validate = .ok () ↔ ∀ l, .label l ∈ d.labels.values → IsPosition l.position := by
  obtain ⟨n, hn⟩ := h.orderly
  rw [hn.validate_eq_ok]
  constructor
  · intro hc l hl
    exact (h.check_eq_ok (s := .labels) hl).1 (hc .labels _ hl) l rfl
  · intro hp s e he
    refine (h.check_eq_ok he).2 ?_
    rintro l rfl
    obtain rfl := hn.eq_labels he
    exact hp l he

end FeynmanTikz.Diagram
