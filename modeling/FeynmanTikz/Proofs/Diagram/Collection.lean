/-
Collections under changes: what is in a collection after an element has been put into it or taken
out of it.

* `key?_int`: the key of a whole number, from which the number can be read back,
* `mem_of_find?` and `contains_iff`: looking up is membership among the entries,
* `entries_insert_of_new`: a new id comes last,
* `mem_insert_of_mem`: under a known id only the element changes,
* `mem_values_insert`: nothing but the new element is added,
* `mem_erase`: erasing takes out the entries with the key and nothing else,
* `find?_of_mem` and `find?_erase_of_ne`: what is found under a key,
* `insert_comm`, `insert_erase_comm`, `erase_comm`: changes under different keys commute,
* `mapValues`: every element changed in its place.
-/
import FeynmanTikz.Diagram.Collection
import FeynmanTikz.Value.Access
import Mathlib.Data.List.Nodup

namespace FeynmanTikz

section

variable {R : Type} [Arithmetic R]

/-- The key of a whole number. -/
def intKey (i : Int) : Key := ⟨[.number i]⟩

theorem intKey_inj {i j : Int} : intKey i = intKey j ↔ i = j := by
  simp [intKey]

@[simp] theorem key?_int (i : Int) : (Value.int i : Value R).key? = some (intKey i) := rfl

@[simp] theorem key?_number_int (i : Int) :
    (Value.number (.int i) : Value R).key? = some (intKey i) := rfl

omit [Arithmetic R] in
theorem int_inj {i j : Int} : (Value.int i : Value R) = .int j ↔ i = j := by
  simp [Value.int]

theorem eq_of_expectKey {v : Value R} {k : Key} (h : v.expectKey = .ok k) : k = ⟨v.keyParts⟩ := by
  unfold Value.expectKey at h
  split at h
  · exact (Except.ok.inj h).symm
  · cases h

/-- A value that can be looked up and is found under the key of a whole number has that key. -/
theorem key?_of_expectKey {v : Value R} {i : Int} (h : v.expectKey = .ok (intKey i)) :
    v.key? = some (intKey i) := by
  unfold Value.expectKey at h
  by_cases hf : v.isFixed = true
  · rw [if_pos hf] at h
    have hk : (⟨v.keyParts⟩ : Key) = intKey i := Except.ok.inj h
    rw [Value.key?, hk, hf]
    rfl
  · rw [if_neg hf] at h
    cases h

end

namespace Collection

variable {R α : Type} [Arithmetic R]

theorem mem_of_find? {c : Collection R α} {k : Key} {a : α} (h : c.find? k = some a) :
    ∃ id, (id, a) ∈ c.entries ∧ id.key? = some k := by
  obtain ⟨⟨id, b⟩, he, rfl⟩ := Option.map_eq_some_iff.1 h
  refine ⟨id, List.mem_of_find?_eq_some he, ?_⟩
  simpa using List.find?_some he

theorem contains_iff {c : Collection R α} {k : Key} :
    c.contains k = true ↔ ∃ id ∈ c.ids, id.key? = some k := by
  unfold contains find? ids
  rw [Option.isSome_map, List.find?_isSome]
  simp

/-- A new id comes last. -/
theorem entries_insert_of_new (c : Collection R α) {id : Value R} (a : α)
    (h : id.key? ∉ c.ids.map (·.key?)) : (c.insert id a).entries = c.entries ++ [(id, a)] := by
  obtain ⟨es⟩ := c
  show insertEntry id a es = es ++ [(id, a)]
  simp only [ids, List.map_map] at h
  induction es with
  | nil => rfl
  | cons e es ih =>
    obtain ⟨k, b⟩ := e
    simp only [List.map_cons, List.mem_cons, not_or] at h
    rw [insertEntry, if_neg fun hk => h.1 hk.1.symm, ih h.2, List.cons_append]

/-- Under a known id only the element changes. -/
theorem mem_insert_of_mem (c : Collection R α) {id : Value R} {a : α} {e : Value R × α}
    (hn : (c.ids.map (·.key?)).Nodup) (h : id.key? ∈ c.ids.map (·.key?)) (hs : id.key?.isSome)
    (he : e ∈ (c.insert id a).entries) :
    (e.2 = a ∧ e.1 ∈ c.ids ∧ e.1.key? = id.key?) ∨ (e ∈ c.entries ∧ e.1.key? ≠ id.key?) := by
  obtain ⟨es⟩ := c
  replace he : e ∈ insertEntry id a es := he
  simp only [ids, List.map_map] at h hn ⊢
  -- The entry with the key of `id` is the only one, so whatever stands behind it has another key.
  induction es with
  | nil => simp at h
  | cons x es ih =>
    obtain ⟨k, b⟩ := x
    simp only [List.map_cons, List.nodup_cons, Function.comp_apply] at hn
    by_cases hk : k.key? = id.key? ∧ id.key?.isSome
    · rw [insertEntry, if_pos hk] at he
      rcases List.mem_cons.1 he with rfl | he
      · exact .inl ⟨rfl, by simp, hk.1⟩
      · refine .inr ⟨List.mem_cons_of_mem _ he, fun h' => hn.1 ?_⟩
        rw [hk.1, ← h']
        exact List.mem_map_of_mem (f := (·.key?) ∘ Prod.fst) he
    · have hk' : k.key? ≠ id.key? := fun h' => hk ⟨h', hs⟩
      rw [insertEntry, if_neg hk] at he
      rcases List.mem_cons.1 he with rfl | he
      · exact .inr ⟨List.mem_cons_self, hk'⟩
      · have hm : id.key? ∈ es.map ((·.key?) ∘ Prod.fst) := by
          simpa [List.map_cons, List.mem_cons, Ne.symm hk'] using h
        rcases ih he hm hn.2 with ⟨ha, hi, hk⟩ | ⟨hi, hk⟩
        · exact .inl ⟨ha, List.mem_cons_of_mem _ hi, hk⟩
        · exact .inr ⟨List.mem_cons_of_mem _ hi, hk⟩

theorem mem_values_insert {c : Collection R α} {id : Value R} {a b : α}
    (h : b ∈ (c.insert id a).values) : b = a ∨ b ∈ c.values := by
  obtain ⟨es⟩ := c
  change b ∈ (insertEntry id a es).map Prod.snd at h
  show b = a ∨ b ∈ es.map Prod.snd
  induction es with
  | nil => simpa [insertEntry] using h
  | cons e es ih =>
    obtain ⟨k, x⟩ := e
    unfold insertEntry at h
    split at h
    · rcases List.mem_cons.1 h with h | h
      · exact .inl h
      · exact .inr (List.mem_cons_of_mem _ h)
    · rcases List.mem_cons.1 h with h | h
      · exact .inr (by rw [h]; exact List.mem_cons_self)
      · exact (ih h).imp_right (List.mem_cons_of_mem _)

theorem mem_erase {c : Collection R α} {k : Key} {e : Value R × α} :
    e ∈ (c.erase k).entries ↔ e ∈ c.entries ∧ e.1.key? ≠ some k := by
  simp [erase]

theorem ids_erase (c : Collection R α) (k : Key) :
    (c.erase k).ids = c.ids.filter fun id => id.key? ≠ some k := by
  simp only [ids, erase, List.filter_map]
  rfl

omit [Arithmetic R] in
/-- Every element changed, under the id it has been stored under. -/
def mapValues (f : α → α) (c : Collection R α) : Collection R α :=
  ⟨c.entries.map fun x => (x.1, f x.2)⟩

omit [Arithmetic R] in
@[simp] theorem ids_mapValues (f : α → α) (c : Collection R α) : (c.mapValues f).ids = c.ids := by
  simp [mapValues, ids]

omit [Arithmetic R] in
@[simp] theorem values_mapValues (f : α → α) (c : Collection R α) :
    (c.mapValues f).values = c.values.map f := by
  simp [mapValues, values]

omit [Arithmetic R] in
theorem mapValues_of_forall {f : α → α} {c : Collection R α} (h : ∀ a ∈ c.values, f a = a) :
    c.mapValues f = c := by
  obtain ⟨es⟩ := c
  show (⟨es.map _⟩ : Collection R α) = ⟨es⟩
  refine congrArg _ ((List.map_congr_left fun x hx => ?_).trans (List.map_id es))
  rw [h x.2 (List.mem_map_of_mem (f := Prod.snd) hx)]
  rfl

/-- What is stored in the middle of some entries is replaced there. -/
theorem insertEntry_append {id k : Value R} {a b : α} {before after : List (Value R × α)}
    (hbefore : ∀ x ∈ before, x.1.key? ≠ id.key?) (hk : k.key? = id.key?) (hid : id.key?.isSome) :
    insertEntry id a (before ++ (k, b) :: after) = before ++ (k, a) :: after := by
  induction before with
  | nil => rw [List.nil_append, insertEntry, if_pos ⟨hk, hid⟩, List.nil_append]
  | cons x before ih =>
    obtain ⟨hx, hbefore⟩ := List.forall_mem_cons.1 hbefore
    rw [List.cons_append, insertEntry, if_neg fun h => hx h.1, ih hbefore, List.cons_append]

theorem find?_of_mem {c : Collection R α} {id : Value R} {a : α} {k : Key}
    (hn : (c.ids.map (·.key?)).Nodup) (h : (id, a) ∈ c.entries) (hk : id.key? = some k) :
    c.find? k = some a := by
  obtain ⟨b, hb⟩ := Option.isSome_iff_exists.1
    (show (c.find? k).isSome = true from contains_iff.2 ⟨id, List.mem_map_of_mem (f := Prod.fst) h, hk⟩)
  obtain ⟨id', hid', hk'⟩ := mem_of_find? hb
  have hn : (c.entries.map fun x => x.1.key?).Nodup := by rwa [ids, List.map_map] at hn
  -- Two entries with the same key are the same entry.
  obtain ⟨-, rfl⟩ := Prod.mk.inj (List.inj_on_of_nodup_map hn h hid' (hk.trans hk'.symm))
  exact hb

theorem find?_erase_of_ne {c : Collection R α} {k j : Key} (h : j ≠ k) :
    (c.erase k).find? j = c.find? j := by
  unfold find? erase
  rw [List.find?_filter]
  congr 1
  refine congrArg (List.find? · c.entries) (funext fun x => ?_)
  by_cases hx : x.1.key? = some j
  · simp [hx, h]
  · simp [hx]

/-- Under two ids that are in use, elements are replaced in either order. -/
theorem insert_comm {c : Collection R α} {id id' : Value R} {k k' : Key} (a b : α)
    (hid : id.key? = some k) (hid' : id'.key? = some k') (hne : k ≠ k')
    (hk : ∃ v ∈ c.ids, v.key? = some k) (hk' : ∃ v ∈ c.ids, v.key? = some k') :
    (c.insert id a).insert id' b = (c.insert id' b).insert id a := by
  obtain ⟨es⟩ := c
  refine congrArg Collection.mk ?_
  replace hk : ∃ v ∈ es.map Prod.fst, v.key? = some k := hk
  replace hk' : ∃ v ∈ es.map Prod.fst, v.key? = some k' := hk'
  show insertEntry id' b (insertEntry id a es) = insertEntry id a (insertEntry id' b es)
  induction es with
  | nil => simp at hk
  | cons x es ih =>
    obtain ⟨j, y⟩ := x
    by_cases hj : j.key? = some k
    · -- The first entry is the one of `id`, so the other element goes behind it.
      have hj' : j.key? ≠ some k' := fun h => hne (Option.some.inj (hj.symm.trans h))
      simp [insertEntry, hid, hid', hj, hne]
    · by_cases hj' : j.key? = some k'
      · simp [insertEntry, hid, hid', hj', Ne.symm hne]
      · have hrest {m : Key} (hm : j.key? ≠ some m)
            (h : ∃ v ∈ ((j, y) :: es).map Prod.fst, v.key? = some m) :
            ∃ v ∈ es.map Prod.fst, v.key? = some m := by
          obtain ⟨v, hv, hvk⟩ := h
          rcases List.mem_cons.1 hv with rfl | hv
          · exact absurd hvk hm
          · exact ⟨v, hv, hvk⟩
        simp [insertEntry, hid, hid', hj, hj', ih (hrest hj hk) (hrest hj' hk')]

theorem insert_erase_comm (c : Collection R α) {id : Value R} {k k' : Key} (a : α)
    (hid : id.key? = some k) (hne : k ≠ k') :
    (c.insert id a).erase k' = (c.erase k').insert id a := by
  obtain ⟨es⟩ := c
  refine congrArg Collection.mk ?_
  show (insertEntry id a es).filter _ = insertEntry id a (es.filter _)
  induction es with
  | nil => simp [insertEntry, hid, hne]
  | cons x es ih =>
    obtain ⟨j, y⟩ := x
    by_cases hj : j.key? = some k
    · simp [insertEntry, hid, hj, hne]
    · by_cases hj' : j.key? = some k'
      · simpa [insertEntry, hid, hj', Ne.symm hne] using ih
      · simpa [insertEntry, hid, hj, hj'] using ih

theorem erase_comm (c : Collection R α) (k k' : Key) : (c.erase k).erase k' = (c.erase k').erase k := by
  unfold erase
  rw [List.filter_comm]

omit [Arithmetic R] in
theorem mapValues_comm {f g : α → α} {c : Collection R α} (h : ∀ a ∈ c.values, f (g a) = g (f a)) :
    (c.mapValues g).mapValues f = (c.mapValues f).mapValues g := by
  unfold mapValues
  simp only [List.map_map]
  refine congrArg _ (List.map_congr_left fun x hx => ?_)
  exact congrArg (Prod.mk x.1) (h x.2 (List.mem_map_of_mem hx))

omit [Arithmetic R] in
theorem mapValues_congr {f g : α → α} {c : Collection R α} (h : ∀ a ∈ c.values, f a = g a) :
    c.mapValues f = c.mapValues g := by
  unfold mapValues
  refine congrArg _ (List.map_congr_left fun x hx => ?_)
  exact congrArg (Prod.mk x.1) (h x.2 (List.mem_map_of_mem hx))

end Collection

end FeynmanTikz
