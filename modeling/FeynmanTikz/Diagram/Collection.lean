/-
Collections: elements under their ids, in order of arrival.

* `Collection.find?`, `insert`, `erase`: one entry per id; a new element under a known id
  takes the place of the old one, a new id comes last,
* `Collection.values` and `Collection.ids`, in order.

Main facts: `find?_insert`, `ids_insert_of_mem`.

Design notes.
* Ids are told apart by their keys.  An entry keeps the id it was first stored under.
* An id without a key is never found, so it gets an entry of its own each time.
-/
import FeynmanTikz.Value

namespace FeynmanTikz

/-- Elements under their ids, in order of arrival. -/
structure Collection (R α : Type) where
  entries : List (Value R × α) := []

namespace Collection

variable {R α : Type}

def empty : Collection R α := {}

def ids (c : Collection R α) : List (Value R) := c.entries.map Prod.fst

def values (c : Collection R α) : List α := c.entries.map Prod.snd

def size (c : Collection R α) : Nat := c.entries.length

def isEmpty (c : Collection R α) : Bool := c.entries.isEmpty

variable [Arithmetic R]

/-- The element under a key. -/
def find? (c : Collection R α) (k : Key) : Option α :=
  (c.entries.find? fun e => e.1.key? = some k).map Prod.snd

def contains (c : Collection R α) (k : Key) : Bool := (c.find? k).isSome

/-- Puts an entry in the place of the one with the same key, or at the end. -/
def insertEntry (id : Value R) (a : α) : List (Value R × α) → List (Value R × α)
  | [] => [(id, a)]
  | (k, b) :: rest =>
    if k.key? = id.key? ∧ id.key?.isSome then (k, a) :: rest else (k, b) :: insertEntry id a rest

def insert (c : Collection R α) (id : Value R) (a : α) : Collection R α :=
  ⟨insertEntry id a c.entries⟩

/-- Removes the entry with a key. -/
def erase (c : Collection R α) (k : Key) : Collection R α :=
  ⟨c.entries.filter fun e => e.1.key? ≠ some k⟩

theorem find?_insertEntry (id : Value R) (k : Key) (a : α) (es : List (Value R × α)) :
    ((insertEntry id a es).find? fun e => e.1.key? = some k).map Prod.snd =
      if id.key? = some k then some a
      else (es.find? fun e => e.1.key? = some k).map Prod.snd := by
  induction es with
  | nil =>
    by_cases h : id.key? = some k
    · simp [insertEntry, h]
    · simp [insertEntry, h]
  | cons e rest ih =>
    obtain ⟨j, b⟩ := e
    by_cases hj : j.key? = id.key? ∧ id.key?.isSome
    · rw [insertEntry, if_pos hj]
      by_cases h : id.key? = some k
      · simp [hj.1, h]
      · simp [hj.1, h]
    · rw [insertEntry, if_neg hj]
      by_cases hk : j.key? = some k
      · have h : id.key? ≠ some k := fun h => hj ⟨hk.trans h.symm, by rw [h]; rfl⟩
        simp [hk, h]
      · simp [hk, ih]

theorem find?_insert (c : Collection R α) (id : Value R) (k : Key) (a : α) :
    (c.insert id a).find? k = if id.key? = some k then some a else c.find? k :=
  find?_insertEntry id k a c.entries

theorem map_fst_insertEntry (id : Value R) (a : α) (es : List (Value R × α)) :
    (insertEntry id a es).map Prod.fst =
      if id.key? ∈ es.map (·.1.key?) ∧ id.key?.isSome then es.map Prod.fst
      else es.map Prod.fst ++ [id] := by
  induction es with
  | nil => simp [insertEntry]
  | cons e rest ih =>
    obtain ⟨j, b⟩ := e
    by_cases hj : j.key? = id.key? ∧ id.key?.isSome
    · rw [insertEntry, if_pos hj]
      simp [hj.1, hj.2]
    · rw [insertEntry, if_neg hj, List.map_cons, ih]
      by_cases hm : id.key? ∈ rest.map (·.1.key?) ∧ id.key?.isSome
      · rw [if_pos hm, if_pos ⟨by rw [List.map_cons]; exact .tail _ hm.1, hm.2⟩, List.map_cons]
      · have h : ¬(id.key? ∈ ((j, b) :: rest).map (·.1.key?) ∧ id.key?.isSome) := by
          rw [List.map_cons, List.mem_cons]
          rintro ⟨h | h, hs⟩
          · exact hj ⟨h.symm, hs⟩
          · exact hm ⟨h, hs⟩
        rw [if_neg hm, if_neg h, List.map_cons, List.cons_append]

theorem ids_insert_of_mem (c : Collection R α) {id : Value R} (a : α)
    (h : id.key? ∈ c.entries.map (·.1.key?)) (hs : id.key?.isSome) :
    (c.insert id a).ids = c.ids := by
  simp only [ids, insert, map_fst_insertEntry]
  exact if_pos ⟨h, hs⟩

end Collection

end FeynmanTikz
