/-
Ids and references: what no mutation ever breaks.

`Diagram.Orderly d n` says that the next id of `d` is `n`, that each collection lists elements of
its own kind under their own ids, in rising order and below `n`, that no id occurs twice, and that
every binding leads to an edge that is there.  Whatever a mutation does, it is one of three changes
of a single collection, and none of them breaks this:

* `Orderly.create`: an element under the next id, which is then counted up,
* `Orderly.replace`: another element in the place of one with the same id,
* `Orderly.erase`: an element less, if no binding leads to it.

Main facts: `Orderly.keeps_settleLabel` and `Orderly.keeps_releaseLabel` for the loops over labels,
`Orderly.nodup_ids`.
-/
import FeynmanTikz.Proofs.Diagram.Collection
import FeynmanTikz.Proofs.Diagram.Mutation
import FeynmanTikz.Proofs.Diagram.Validity

namespace FeynmanTikz

/-- Whether a collection is meant for an element. -/
def Shelf.admits {R : Type} : Shelf → Element R → Bool
  | .points, .point _ | .edges, .edge _ | .ellipses, .ellipse _ | .labels, .label _ => true
  | _, _ => false

namespace Diagram

open Edit

variable {R : Type} [Arithmetic R]

/-- Whether a value is the id of an edge that is there. -/
def IsLive (d : Diagram R) (target : Value R) : Prop :=
  ∃ k, target.key? = some k ∧ d.edges.contains k = true

/-- The binding of a label, if it has one, leads to an edge that is there. -/
def Tied (d : Diagram R) (l : Label R) : Prop :=
  l.binding = .none ∨ ∃ b, l.bound? = .ok (some b) ∧ d.IsLive b.target

/-- The state of ids and references in a diagram whose next id is `n`. -/
structure Orderly (d : Diagram R) (n : Int) : Prop where
  next_eq : d.next = .int n
  /-- Every element is stored under its own id, in the collection for its kind. -/
  own : ∀ s, ∀ e ∈ (d.shelf s).entries, e.1 = e.2.id ∧ s.admits e.2 = true
  /-- The ids of a collection are whole numbers below the next id, in rising order. -/
  rising : ∀ s, ∃ is : List Int, (d.shelf s).ids = is.map Value.int ∧ is.Pairwise (· < ·) ∧
    ∀ i ∈ is, i < n
  /-- No id occurs in two collections. -/
  apart : ∀ s t i, Value.int i ∈ (d.shelf s).ids → Value.int i ∈ (d.shelf t).ids → s = t
  live : ∀ l, .label l ∈ d.labels.values → d.Tied l

theorem isLive_congr {d d' : Diagram R} (h : d'.edges.ids = d.edges.ids) {target : Value R} :
    d'.IsLive target ↔ d.IsLive target := by
  simp only [IsLive, Collection.contains_iff, h]

theorem tied_congr {d d' : Diagram R} (h : d'.edges.ids = d.edges.ids) {l : Label R} :
    d'.Tied l ↔ d.Tied l := by
  simp only [Tied, isLive_congr h]

omit [Arithmetic R] in
theorem shelf_onShelf (d : Diagram R) (s t : Shelf)
    (f : Collection R (Element R) → Collection R (Element R)) :
    (d.onShelf s f).shelf t = if t = s then f (d.shelf t) else d.shelf t := by
  cases s <;> cases t <;> rfl

omit [Arithmetic R] in
@[simp] theorem next_onShelf (d : Diagram R) (s : Shelf)
    (f : Collection R (Element R) → Collection R (Element R)) : (d.onShelf s f).next = d.next := by
  cases s <;> rfl

omit [Arithmetic R] in
theorem mem_elements {d : Diagram R} {e : Element R} :
    e ∈ d.elements ↔ ∃ s, e ∈ (d.shelf s).values := by
  unfold elements
  simp only [List.mem_append]
  constructor
  · rintro (((h | h) | h) | h)
    · exact ⟨.points, h⟩
    · exact ⟨.edges, h⟩
    · exact ⟨.ellipses, h⟩
    · exact ⟨.labels, h⟩
  · rintro ⟨s, h⟩
    cases s with
    | points => exact .inl (.inl (.inl h))
    | edges => exact .inl (.inl (.inr h))
    | ellipses => exact .inl (.inr h)
    | labels => exact .inr h

theorem shelf_takeId (d : Diagram R) (s : Shelf) : d.takeId.shelf s = d.shelf s := by
  cases s <;> rfl

/-- A diagram with an element more, and the next id counted up. -/
def grown (d : Diagram R) (s : Shelf) (e : Element R) : Diagram R :=
  (d.onShelf s (·.insert e.id e)).takeId

omit [Arithmetic R] in
/-- What holds of every element still holds after a change of one collection, if it holds of what
is in that collection then. -/
theorem forall_onShelf {P : Shelf → Element R → Prop} {d : Diagram R} {s : Shelf}
    {f : Collection R (Element R) → Collection R (Element R)}
    (h : ∀ t, ∀ e ∈ (d.shelf t).values, P t e) (hf : ∀ e ∈ (f (d.shelf s)).values, P s e) :
    ∀ t, ∀ e ∈ ((d.onShelf s f).shelf t).values, P t e := by
  intro t e he
  rw [shelf_onShelf] at he
  by_cases hts : t = s
  · subst hts
    rw [if_pos rfl] at he
    exact hf e he
  · rw [if_neg hts] at he
    exact h t e he

theorem forall_inserted {P : Shelf → Element R → Prop} {d : Diagram R} {s : Shelf} {id : Value R}
    {e : Element R} (h : ∀ t, ∀ e ∈ (d.shelf t).values, P t e) (he : P s e) :
    ∀ t, ∀ x ∈ ((d.onShelf s (·.insert id e)).shelf t).values, P t x := by
  refine forall_onShelf h fun x hx => ?_
  rcases Collection.mem_values_insert hx with rfl | hx
  · exact he
  · exact h s x hx

theorem forall_grown {P : Shelf → Element R → Prop} {d : Diagram R} {s : Shelf} {e : Element R}
    (h : ∀ t, ∀ e ∈ (d.shelf t).values, P t e) (he : P s e) :
    ∀ t, ∀ x ∈ ((d.grown s e).shelf t).values, P t x := by
  intro t x hx
  unfold grown at hx
  rw [shelf_takeId] at hx
  exact forall_inserted h he t x hx

/-- Without elements, everything is in order. -/
theorem orderly_of_empty {d : Diagram R} {n : Int} (hn : d.next = .int n)
    (he : ∀ s, d.shelf s = {}) : d.Orderly n := by
  have hids (s : Shelf) : (d.shelf s).ids = [] := by rw [he s]; rfl
  refine ⟨hn, ?_, ?_, ?_, ?_⟩
  · intro s e hm
    rw [he s] at hm
    exact absurd hm List.not_mem_nil
  · intro s
    exact ⟨[], hids s, List.Pairwise.nil, fun i hi => absurd hi List.not_mem_nil⟩
  · intro s t i hm
    rw [hids s] at hm
    exact absurd hm List.not_mem_nil
  · intro l hm
    rw [show d.labels = {} from he .labels] at hm
    exact absurd hm List.not_mem_nil

namespace Orderly

variable {d : Diagram R} {n : Int}

theorem id_eq (h : d.Orderly n) {s : Shelf} {v : Value R} (hv : v ∈ (d.shelf s).ids) :
    ∃ i < n, v = .int i := by
  obtain ⟨is, hi, -, hn⟩ := h.rising s
  rw [hi] at hv
  obtain ⟨i, hm, rfl⟩ := List.mem_map.1 hv
  exact ⟨i, hn i hm, rfl⟩

theorem nodup_keys (h : d.Orderly n) (s : Shelf) : ((d.shelf s).ids.map (·.key?)).Nodup := by
  obtain ⟨is, hi, hr, -⟩ := h.rising s
  rw [hi, List.map_map]
  refine List.Pairwise.map _ (fun i j hij hk => ?_) hr
  have hk : some (intKey i) = some (intKey j) := hk
  rw [Option.some_inj, intKey_inj] at hk
  omega

/-- An element is in the collection for its kind. -/
theorem admits (h : d.Orderly n) {s : Shelf} {e : Element R} (he : e ∈ (d.shelf s).values) :
    s.admits e = true := by
  obtain ⟨x, hx, rfl⟩ := List.mem_map.1 he
  exact (h.own s x hx).2

/-- Labels are only among the labels. -/
theorem eq_labels (h : d.Orderly n) {s : Shelf} {l : Label R}
    (hl : .label l ∈ (d.shelf s).values) : s = .labels := by
  have hadm := h.admits hl
  cases s <;> first | rfl | cases hadm

/-- The entry that is found under an id is stored under the key of that id. -/
theorem of_lookUp (h : d.Orderly n) {s : Shelf} {id : Value R} {e : Element R}
    (he : lookUp (d.shelf s) id = .ok e) :
    ∃ i < n, e.id = .int i ∧ id.key? = some (intKey i) ∧ (Value.int i, e) ∈ (d.shelf s).entries := by
  obtain ⟨k, hk, he⟩ := lookUp_eq_ok.1 he
  obtain ⟨v, hv, hkey⟩ := Collection.mem_of_find? he
  obtain ⟨i, hi, rfl⟩ := h.id_eq (List.mem_map_of_mem (f := Prod.fst) hv)
  obtain rfl : intKey i = k := by simpa using hkey
  exact ⟨i, hi, ((h.own s _ hv).1).symm, key?_of_expectKey hk, hv⟩

theorem map_id_values (h : d.Orderly n) (s : Shelf) :
    (d.shelf s).values.map Element.id = (d.shelf s).ids := by
  simp only [Collection.values, Collection.ids, List.map_map]
  exact List.map_congr_left fun e he => ((h.own s e he).1).symm

theorem nodup_shelf (h : d.Orderly n) (s : Shelf) : (d.shelf s).ids.Nodup := by
  have := h.nodup_keys s
  exact List.Pairwise.of_map _ (fun v w hvw h => hvw (by rw [h])) this

theorem ne_of_shelf_ne (h : d.Orderly n) {s t : Shelf} (hst : s ≠ t) {v w : Value R}
    (hv : v ∈ (d.shelf s).ids) (hw : w ∈ (d.shelf t).ids) : v ≠ w := by
  rintro rfl
  obtain ⟨i, -, rfl⟩ := h.id_eq hv
  exact hst (h.apart s t i hv hw)

theorem map_id_elements (h : d.Orderly n) : d.elements.map Element.id =
    (d.shelf .points).ids ++ (d.shelf .edges).ids ++ (d.shelf .ellipses).ids ++
      (d.shelf .labels).ids := by
  rw [← h.map_id_values, ← h.map_id_values, ← h.map_id_values, ← h.map_id_values]
  simp [elements, shelf]

/-- No id occurs twice, in whatever collections. -/
theorem nodup_ids (h : d.Orderly n) : (d.elements.map Element.id).Nodup := by
  rw [h.map_id_elements]
  refine List.nodup_append.2 ⟨List.nodup_append.2 ⟨List.nodup_append.2 ⟨h.nodup_shelf _,
    h.nodup_shelf _, ?_⟩, h.nodup_shelf _, ?_⟩, h.nodup_shelf _, ?_⟩
  · exact fun v hv w hw => h.ne_of_shelf_ne (by decide) hv hw
  · intro v hv w hw
    rcases List.mem_append.1 hv with hv | hv
    all_goals exact h.ne_of_shelf_ne (by decide) hv hw
  · intro v hv w hw
    rcases List.mem_append.1 hv with hv | hv
    · rcases List.mem_append.1 hv with hv | hv
      all_goals exact h.ne_of_shelf_ne (by decide) hv hw
    · exact h.ne_of_shelf_ne (by decide) hv hw

/-- Every id is a whole number below the next one. -/
theorem id_lt (h : d.Orderly n) {e : Element R} (he : e ∈ d.elements) :
    ∃ i < n, e.id = .int i := by
  have hm : e.id ∈ d.elements.map Element.id := List.mem_map_of_mem he
  rw [h.map_id_elements] at hm
  simp only [List.mem_append] at hm
  rcases hm with ((hm | hm) | hm) | hm
  all_goals exact h.id_eq hm

/-- The ids of all elements are different whole numbers below the next one. -/
theorem exists_ids (h : d.Orderly n) : ∃ is : List Int,
    d.elements.map Element.id = is.map Value.int ∧ is.Nodup ∧ ∀ i ∈ is, i < n := by
  have key : ∀ vs : List (Value R), (∀ v ∈ vs, ∃ i < n, v = .int i) →
      ∃ is : List Int, vs = is.map Value.int ∧ ∀ i ∈ is, i < n := by
    intro vs hvs
    induction vs with
    | nil => exact ⟨[], rfl, by simp⟩
    | cons v vs ih =>
      obtain ⟨⟨i, hi, rfl⟩, hrest⟩ := List.forall_mem_cons.1 hvs
      obtain ⟨is, rfl, his⟩ := ih hrest
      exact ⟨i :: is, rfl, List.forall_mem_cons.2 ⟨hi, his⟩⟩
  obtain ⟨is, his, hlt⟩ := key (d.elements.map Element.id) fun v hv => by
    obtain ⟨e, he, rfl⟩ := List.mem_map.1 hv
    exact h.id_lt he
  have hnodup := h.nodup_ids
  rw [his] at hnodup
  exact ⟨is, his, List.Pairwise.of_map _ (fun i j hij h => hij (by rw [h])) hnodup, hlt⟩

/-- A label that has been checked is tied to an edge that is there, if to any. -/
theorem tied_of_isValid (h : d.Orderly n) {l : Label R} (hl : l.IsValid d.edges.ids) :
    d.Tied l := by
  obtain ⟨b, hb, hv⟩ := hl.binding
  cases b with
  | none =>
    refine .inl ?_
    unfold Label.bound? at hb
    split at hb
    · assumption
    · obtain ⟨c, -, hc⟩ := bind_eq_ok.1 hb
      cases hc
  | some b =>
    obtain ⟨k, hk, id, hid, hkey⟩ := (hv b rfl).target
    obtain ⟨i, -, rfl⟩ := h.id_eq (s := .edges) hid
    obtain rfl : intKey i = k := by simpa using hkey
    exact .inr ⟨b, hb, _, key?_of_expectKey hk, Collection.contains_iff.2 ⟨_, hid, rfl⟩⟩

theorem key?_notMem (h : d.Orderly n) (s : Shelf) :
    (Value.int n : Value R).key? ∉ (d.shelf s).ids.map (·.key?) := by
  intro hm
  obtain ⟨v, hv, hk⟩ := List.mem_map.1 hm
  obtain ⟨i, hi, rfl⟩ := h.id_eq hv
  rw [key?_int, key?_int, Option.some_inj, intKey_inj] at hk
  omega

/-! ### An element more -/

theorem entries_grown (h : d.Orderly n) {s : Shelf} {e : Element R} (he : e.id = .int n) (t : Shelf) :
    ((d.grown s e).shelf t).entries =
      if t = s then (d.shelf t).entries ++ [(.int n, e)] else (d.shelf t).entries := by
  unfold grown
  rw [shelf_takeId, shelf_onShelf]
  by_cases hts : t = s
  · rw [if_pos hts, if_pos hts, he, Collection.entries_insert_of_new _ _ (h.key?_notMem t)]
  · rw [if_neg hts, if_neg hts]

/-- A new element comes last in its collection, and the others stay as they are. -/
theorem values_grown (h : d.Orderly n) {s : Shelf} {e : Element R} (he : e.id = .int n) (t : Shelf) :
    ((d.grown s e).shelf t).values =
      if t = s then (d.shelf t).values ++ [e] else (d.shelf t).values := by
  unfold Collection.values
  rw [h.entries_grown he t]
  split <;> simp

theorem ids_grown (h : d.Orderly n) {s : Shelf} {e : Element R} (he : e.id = .int n) (t : Shelf) :
    ((d.grown s e).shelf t).ids =
      if t = s then (d.shelf t).ids ++ [.int n] else (d.shelf t).ids := by
  unfold Collection.ids
  rw [h.entries_grown he t]
  split <;> simp

theorem mem_ids_grown (h : d.Orderly n) {s : Shelf} {e : Element R} (he : e.id = .int n) {t : Shelf}
    {i : Int} (hi : Value.int i ∈ ((d.grown s e).shelf t).ids) :
    Value.int i ∈ (d.shelf t).ids ∨ (t = s ∧ i = n) := by
  rw [h.ids_grown he t] at hi
  split at hi
  · rcases List.mem_append.1 hi with hi | hi
    · exact .inl hi
    · exact .inr ⟨by assumption, int_inj.1 (List.mem_singleton.1 hi)⟩
  · exact .inl hi

theorem mem_entries_grown (h : d.Orderly n) {s : Shelf} {e : Element R} (he : e.id = .int n)
    {t : Shelf} {x : Value R × Element R} (hx : x ∈ ((d.grown s e).shelf t).entries) :
    x ∈ (d.shelf t).entries ∨ (t = s ∧ x = (.int n, e)) := by
  rw [h.entries_grown he t] at hx
  split at hx
  · rcases List.mem_append.1 hx with hx | hx
    · exact .inl hx
    · exact .inr ⟨by assumption, List.mem_singleton.1 hx⟩
  · exact .inl hx

/-- An edge that is there stays there. -/
theorem isLive_grown (h : d.Orderly n) {s : Shelf} {e : Element R} (he : e.id = .int n) {v : Value R}
    (hv : d.IsLive v) : (d.grown s e).IsLive v := by
  obtain ⟨k, hk, hc⟩ := hv
  obtain ⟨id, hid, hkey⟩ := Collection.contains_iff.1 hc
  refine ⟨k, hk, Collection.contains_iff.2 ⟨id, ?_, hkey⟩⟩
  rw [show (d.grown s e).edges.ids = _ from h.ids_grown he .edges]
  split
  · exact List.mem_append_left _ hid
  · exact hid

theorem tied_grown (h : d.Orderly n) {s : Shelf} {e : Element R} (he : e.id = .int n) {l : Label R}
    (hl : d.Tied l) : (d.grown s e).Tied l := by
  rcases hl with hb | ⟨b, hb, hv⟩
  · exact .inl hb
  · exact .inr ⟨b, hb, h.isLive_grown he hv⟩

theorem rising_grown (h : d.Orderly n) {s : Shelf} {e : Element R} (he : e.id = .int n) (t : Shelf) :
    ∃ is : List Int, ((d.grown s e).shelf t).ids = is.map Value.int ∧ is.Pairwise (· < ·) ∧
      ∀ i ∈ is, i < n + 1 := by
  obtain ⟨is, hi, hr, hb⟩ := h.rising t
  rw [h.ids_grown he t]
  split
  · refine ⟨is ++ [n], by rw [hi]; simp, ?_, ?_⟩
    · rw [List.pairwise_append]
      refine ⟨hr, List.pairwise_singleton _ _, fun i hi j hj => ?_⟩
      rw [List.mem_singleton.1 hj]
      exact hb i hi
    · intro i hi
      rcases List.mem_append.1 hi with hi | hi
      · have := hb i hi
        omega
      · rw [List.mem_singleton.1 hi]
        omega
  · refine ⟨is, hi, hr, fun i hi => ?_⟩
    have := hb i hi
    omega

/-- An element under the next id, which is then counted up. -/
theorem create (h : d.Orderly n) {s : Shelf} {e : Element R} (hs : s.admits e = true)
    (he : e.id = .int n) (ht : ∀ l, e = .label l → d.Tied l) : (d.grown s e).Orderly (n + 1) := by
  refine ⟨?_, ?_, h.rising_grown he, ?_, ?_⟩
  · show (d.onShelf s _).next.succ = _
    rw [next_onShelf, h.next_eq]
    rfl
  · intro t x hx
    rcases h.mem_entries_grown he hx with hx | ⟨rfl, rfl⟩
    · exact h.own t x hx
    · exact ⟨he.symm, hs⟩
  · -- The new id is above all others, so it occurs where it has been put and nowhere else.
    intro t u i ht hu
    have hold {t : Shelf} (ht : Value.int i ∈ (d.shelf t).ids) : i ≠ n := by
      obtain ⟨j, hj, hij⟩ := h.id_eq ht
      rw [int_inj.1 hij]
      omega
    rcases h.mem_ids_grown he ht with ht' | ⟨hts, hin⟩
    · rcases h.mem_ids_grown he hu with hu' | ⟨-, hin⟩
      · exact h.apart t u i ht' hu'
      · exact absurd hin (hold ht')
    · rcases h.mem_ids_grown he hu with hu' | ⟨hus, -⟩
      · exact absurd hin (hold hu')
      · rw [hts, hus]
  · intro l hl
    obtain ⟨x, hx, hxl⟩ := List.mem_map.1 hl
    refine h.tied_grown he ?_
    rcases h.mem_entries_grown (t := .labels) he hx with hx | ⟨-, rfl⟩
    · exact h.live l (hxl ▸ List.mem_map_of_mem (f := Prod.snd) hx)
    · exact ht l hxl

/-! ### Another element, and an element less -/

theorem mem_keys_of_lookUp (h : d.Orderly n) {s : Shelf} {id : Value R} {old : Element R}
    (ho : lookUp (d.shelf s) id = .ok old) :
    id.key? ∈ (d.shelf s).ids.map (·.key?) ∧ (id.key?).isSome := by
  obtain ⟨i, -, -, hkey, hold⟩ := h.of_lookUp ho
  refine ⟨?_, by rw [hkey]; rfl⟩
  rw [hkey, ← key?_int (R := R) i]
  exact List.mem_map_of_mem (List.mem_map_of_mem (f := Prod.fst) hold)

/-- No id changes where an element is replaced. -/
theorem ids_replaced (h : d.Orderly n) {s : Shelf} {id : Value R} {old : Element R} (e : Element R)
    (ho : lookUp (d.shelf s) id = .ok old) (t : Shelf) :
    ((d.onShelf s (·.insert id e)).shelf t).ids = (d.shelf t).ids := by
  obtain ⟨hm, hsome⟩ := h.mem_keys_of_lookUp ho
  rw [shelf_onShelf]
  split
  · subst t
    exact Collection.ids_insert_of_mem _ _ (by simpa [Collection.ids] using hm) hsome
  · rfl

theorem mem_entries_replaced (h : d.Orderly n) {s : Shelf} {id : Value R} {old e : Element R}
    (ho : lookUp (d.shelf s) id = .ok old) {t : Shelf} {x : Value R × Element R}
    (hx : x ∈ ((d.onShelf s (·.insert id e)).shelf t).entries) :
    x ∈ (d.shelf t).entries ∨ (t = s ∧ x = (old.id, e)) := by
  obtain ⟨i, -, hoid, hkey, -⟩ := h.of_lookUp ho
  obtain ⟨hm, hsome⟩ := h.mem_keys_of_lookUp ho
  rw [shelf_onShelf] at hx
  split at hx
  · subst t
    rcases Collection.mem_insert_of_mem _ (h.nodup_keys s) hm hsome hx with ⟨h2, h1, hk⟩ | ⟨hx, -⟩
    · obtain ⟨j, -, hj⟩ := h.id_eq h1
      rw [hj, hkey, key?_int, Option.some_inj, intKey_inj] at hk
      exact .inr ⟨rfl, Prod.ext (by rw [hj, hk, hoid]) h2⟩
    · exact .inl hx
  · exact .inl hx

/-- Another element in the place of one with the same id. -/
theorem replace (h : d.Orderly n) {s : Shelf} {id : Value R} {old e : Element R}
    (ho : lookUp (d.shelf s) id = .ok old) (he : e.id = old.id) (hs : s.admits e = true)
    (ht : ∀ l, e = .label l → d.Tied l) : (d.onShelf s (·.insert id e)).Orderly n := by
  have hids := h.ids_replaced e ho
  -- No id changes, so only the element itself has to be looked at.
  refine ⟨?_, ?_, ?_, ?_, ?_⟩
  · rw [next_onShelf]
    exact h.next_eq
  · intro t x hx
    rcases h.mem_entries_replaced ho hx with hx | ⟨rfl, rfl⟩
    · exact h.own t x hx
    · exact ⟨he.symm, hs⟩
  · intro t
    rw [hids t]
    exact h.rising t
  · intro t u j ht hu
    rw [hids t] at ht
    rw [hids u] at hu
    exact h.apart t u j ht hu
  · intro l hl
    rw [tied_congr (hids .edges)]
    obtain ⟨x, hx, hxl⟩ := List.mem_map.1 hl
    rcases h.mem_entries_replaced (t := .labels) ho hx with hx | ⟨-, rfl⟩
    · exact h.live l (hxl ▸ List.mem_map_of_mem (f := Prod.snd) hx)
    · exact ht l hxl

/-- An edge that is there stays there if another key is erased. -/
theorem isLive_erased {v : Value R} {k : Key} (hv : d.IsLive v) (hne : v.key? ≠ some k) :
    (d.onShelf .edges (·.erase k)).IsLive v := by
  obtain ⟨j, hj, hc⟩ := hv
  obtain ⟨id, hid, hkey⟩ := Collection.contains_iff.1 hc
  refine ⟨j, hj, Collection.contains_iff.2 ⟨id, ?_, hkey⟩⟩
  show id ∈ (d.edges.erase k).ids
  rw [Collection.ids_erase, List.mem_filter]
  refine ⟨hid, ?_⟩
  rw [hkey, ← hj]
  simpa using hne

theorem mem_entries_erased {s t : Shelf} {k : Key} {x : Value R × Element R}
    (hx : x ∈ ((d.onShelf s (·.erase k)).shelf t).entries) : x ∈ (d.shelf t).entries := by
  rw [shelf_onShelf] at hx
  split at hx
  · exact (Collection.mem_erase.1 hx).1
  · exact hx

theorem rising_erased (h : d.Orderly n) (s : Shelf) (k : Key) (t : Shelf) :
    ∃ is : List Int, ((d.onShelf s (·.erase k)).shelf t).ids = is.map Value.int ∧
      is.Pairwise (· < ·) ∧ ∀ i ∈ is, i < n := by
  obtain ⟨is, hi, hr, hb⟩ := h.rising t
  rw [shelf_onShelf]
  split
  · refine ⟨is.filter fun i => (Value.int i : Value R).key? ≠ some k, ?_, hr.filter _, ?_⟩
    · rw [Collection.ids_erase, hi, List.filter_map]
      rfl
    · exact fun i hi => hb i (List.mem_filter.1 hi).1
  · exact ⟨is, hi, hr, hb⟩

/-- An element less, if no binding leads to it. -/
theorem erase (h : d.Orderly n) (s : Shelf) (k : Key)
    (ht : s = .edges → ∀ l, .label l ∈ d.labels.values → l.binding = .none ∨
      ∃ b, l.bound? = .ok (some b) ∧ d.IsLive b.target ∧ b.target.key? ≠ some k) :
    (d.onShelf s (·.erase k)).Orderly n := by
  have hid {t : Shelf} {v : Value R} (hv : v ∈ ((d.onShelf s (·.erase k)).shelf t).ids) :
      v ∈ (d.shelf t).ids := by
    obtain ⟨x, hx, rfl⟩ := List.mem_map.1 hv
    exact List.mem_map_of_mem (mem_entries_erased hx)
  refine ⟨?_, fun t x hx => h.own t x (mem_entries_erased hx), h.rising_erased s k,
    fun t u i ht hu => h.apart t u i (hid ht) (hid hu), ?_⟩
  · rw [next_onShelf]
    exact h.next_eq
  · intro l hl
    have hl' : .label l ∈ d.labels.values := by
      obtain ⟨x, hx, hxl⟩ := List.mem_map.1 hl
      exact hxl ▸ List.mem_map_of_mem (f := Prod.snd) (mem_entries_erased (t := .labels) hx)
    -- Only where an edge goes is there something to ask of the bindings.
    by_cases hse : s = .edges
    · subst hse
      rcases ht rfl l hl' with hb | ⟨b, hb, hlive, hne⟩
      · exact .inl hb
      · exact .inr ⟨b, hb, isLive_erased hlive hne⟩
    · have he : (d.onShelf s (·.erase k)).edges = d.edges := by
        have := shelf_onShelf d s .edges (·.erase k)
        rwa [if_neg (Ne.symm hse)] at this
      rw [tied_congr (congrArg Collection.ids he)]
      exact h.live l hl'

/-! ### Loops over the labels of an edge -/

theorem of_labelUnder (h : d.Orderly n) {id : Value R} {l : Label R}
    (hl : d.labelUnder id = .ok l) :
    lookUp (d.shelf .labels) id = .ok (.label l) ∧ d.Tied l := by
  obtain ⟨e, he, hl⟩ := bind_eq_ok.1 hl
  cases e with
  | label l' =>
    cases hl
    obtain ⟨i, -, -, -, hm⟩ := h.of_lookUp (s := .labels) he
    exact ⟨he, h.live l (List.mem_map_of_mem (f := Prod.snd) hm)⟩
  | _ => cases hl

theorem replaceLabel (h : d.Orderly n) {id : Value R} {old l : Label R}
    (ho : lookUp (d.shelf .labels) id = .ok (.label old)) (he : l.id = old.id) (ht : d.Tied l) :
    (d.replaceLabel id l).Orderly n := by
  refine h.replace (s := .labels) ho he rfl ?_
  rintro l' ⟨⟩
  exact ht

theorem keeps_settleLabel (n : Int) (id : Value R) :
    Keeps (fun d : Diagram R => d.Orderly n) (settleLabel id) := by
  intro d h
  rw [outcome_settleLabel]
  refine written_keeps (P := fun d : Diagram R => d.Orderly n) h fun l hl => ?_
  obtain ⟨old, ho, hl⟩ := bind_eq_ok.1 hl
  obtain ⟨position, -, hl⟩ := bind_eq_ok.1 hl
  cases hl
  obtain ⟨hlook, ht⟩ := h.of_labelUnder ho
  exact h.replaceLabel hlook rfl ht

theorem freed (h : d.Orderly n) {id : Value R} {l : Label R} (hl : d.freedLabel id = .ok l) :
    (d.replaceLabel id l).Orderly n ∧ l.binding = .none := by
  obtain ⟨old, ho, hl⟩ := bind_eq_ok.1 hl
  obtain ⟨position, -, hl⟩ := bind_eq_ok.1 hl
  cases hl
  exact ⟨h.replaceLabel (h.of_labelUnder ho).1 rfl (.inl rfl), rfl⟩

theorem keeps_releaseLabel (n : Int) (edge id : Value R) :
    Keeps (fun d : Diagram R => d.Orderly n) (releaseLabel edge id) := by
  intro d h
  rw [outcome_releaseLabel]
  exact written_keeps (P := fun d : Diagram R => d.Orderly n) h fun l hl => (h.freed hl).1

/-- After a loop that released some labels, every label is free or has not been touched. -/
theorem released {edge : Value R} : ∀ {ids : List (Value R)} {d d' : Diagram R}, d.Orderly n →
    (forEach (releaseLabel edge) ids).outcome d = (.ok (), d') →
    d'.edges = d.edges ∧ ∀ x ∈ d'.labels.entries,
      (∃ l, x.2 = .label l ∧ l.binding = .none) ∨ (x ∈ d.labels.entries ∧ x.1 ∉ ids)
  | [], d, d', _, hr => by
    cases hr
    exact ⟨rfl, fun x hx => .inr ⟨hx, List.not_mem_nil⟩⟩
  | id :: ids, d, d', h, hr => by
    rw [outcome_forEach_cons, outcome_releaseLabel] at hr
    rcases hl : d.freedLabel id with e | l
    · rw [hl] at hr
      cases hr
    · rw [hl] at hr
      replace hr : (forEach (releaseLabel edge) ids).outcome (d.replaceLabel id l) = (.ok (), d') :=
        hr
      obtain ⟨ho, hb⟩ := h.freed hl
      obtain ⟨he, hx⟩ := released ho hr
      refine ⟨he, fun x hxm => ?_⟩
      rcases hx x hxm with hfree | ⟨hm, hni⟩
      · exact .inl hfree
      -- The entry comes from the label that has just been freed, or it was there before.
      obtain ⟨old, hold, -⟩ := bind_eq_ok.1 hl
      obtain ⟨hk, hsome⟩ := h.mem_keys_of_lookUp (h.of_labelUnder hold).1
      rcases Collection.mem_insert_of_mem _ (h.nodup_keys .labels) hk hsome hm with
        ⟨h2, -, -⟩ | ⟨hm, hne⟩
      · exact .inl ⟨l, h2, hb⟩
      · refine .inr ⟨hm, ?_⟩
        rw [List.mem_cons, not_or]
        exact ⟨fun hxid => hne (by rw [hxid]), hni⟩

end Orderly

end Diagram

end FeynmanTikz
