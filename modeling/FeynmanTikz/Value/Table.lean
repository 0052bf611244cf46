/-
Sets and dictionaries made from their members.

A set keeps its members in a table of slots and shows them slot by slot.  A member goes to the
slot its hash asks for, or to the first free one on a path that starts there.  A table that gets
too full is replaced by a larger one, to which the members move slot by slot.

* `Table.insert`, `Table.members`: one more member, and the members in order,
* `Value.ofMembers`: a set; members that are equal to one before are left out,
* `Value.ofEntries`: a dictionary; an entry whose key is there already only brings its value.

Design notes.
* What can be changed from outside is neither a member of a set nor a key.
-/
import FeynmanTikz.Diagram.Collection
import FeynmanTikz.Value.Access
import FeynmanTikz.Value.Hash

namespace FeynmanTikz

/-- Members with their hashes in slots; the number of slots is a power of two. -/
structure Table (α : Type) where
  slots : Array (Option (UInt64 × α))
  used : Nat

namespace Table

/-- Slots of the smallest table. -/
def leastSize : Nat := 8

/-- Slots that are tried one after the other before the path jumps, the first not counted. -/
def neighbours : Nat := 9

variable {α : Type}

/-- A table without members. -/
def ofSize (size : Nat) : Table α := ⟨Array.replicate size none, 0⟩

def isFree (t : Table α) (i : Nat) : Bool :=
  match t.slots[i]? with
  | some none => true
  | _ => false

/-- The slots to be tried at `i`.  Neighbours are only tried where there is room for all. -/
def around (t : Table α) (i : Nat) : List Nat :=
  if i + neighbours < t.slots.size then (List.range (neighbours + 1)).map (i + ·) else [i]

/-- The first free slot on the path from `i`.  A jump takes in more and more of the hash, and
when the hash is used up the path comes to every slot. -/
def freeSlot? (t : Table α) : (jumps : Nat) → (hash : Nat) → (i : Nat) → Option Nat
  | 0, _, _ => none
  | jumps + 1, hash, i =>
    match (t.around i).find? t.isFree with
    | some j => some j
    | none => freeSlot? t jumps (hash / 32) ((i * 5 + 1 + hash / 32) % t.slots.size)

/-- Jumps that use up a hash. -/
def hashJumps : Nat := 13

/-- The slot a member with the given hash goes to. -/
def freeSlot (t : Table α) (hash : UInt64) : Option Nat :=
  t.freeSlot? (t.slots.size + hashJumps) hash.toNat (hash.toNat % t.slots.size)

/-- Puts a member in its slot. -/
def place (t : Table α) (member : UInt64 × α) : Table α :=
  match t.freeSlot member.1 with
  | some i => ⟨t.slots.setIfInBounds i (some member), t.used + 1⟩
  | none => t

/-- Members with their hashes, slot by slot. -/
def hashed (t : Table α) : List (UInt64 × α) := t.slots.toList.filterMap id

/-- The members, slot by slot. -/
def members (t : Table α) : List α := t.hashed.map Prod.snd

/-- Members from which on a table grows less. -/
def largeCount : Nat := 50000

/-- Slots of the table that replaces one with some members. -/
def grownSize (used : Nat) : Nat :=
  let least := if largeCount < used then used * 2 else used * 4
  Nat.max leastSize (Nat.pow 2 (least.log2 + 1))

/-- At three fifths a table is replaced by a larger one. -/
def isFull (t : Table α) : Bool := (t.slots.size - 1) * 3 ≤ t.used * 5

def grown (t : Table α) : Table α := t.hashed.foldl place (ofSize (grownSize t.used))

/-- One more member. -/
def insert (t : Table α) (hash : UInt64) (a : α) : Table α :=
  let t := t.place (hash, a)
  if t.isFull then t.grown else t

end Table

namespace Value

variable {R : Type} [Arithmetic R]

/-- Values without those that are equal to one before. -/
def distinct (vs : List (Value R)) : List (Value R) :=
  vs.foldl (fun before v => if anyKeyed v.key? before then before else before ++ [v]) []

/-- The set of some values, its members in the order of their table. -/
def ofMembers (vs : List (Value R)) : Except (Fault R) (Value R) :=
  if areFixed vs then
    .ok (.set ((distinct vs).foldl (fun t v => t.insert v.hash v)
      (Table.ofSize Table.leastSize)).members)
  else .error .wrongType

/-- The dictionary of some keys with their values, in order of arrival. -/
def ofEntries (entries : List (Value R × Value R)) : Except (Fault R) (Value R) :=
  if areFixed (entries.map Prod.fst) then
    .ok (.dict (entries.foldl (fun c e => c.insert e.1 e.2) Collection.empty).entries)
  else .error .wrongType

end Value

end FeynmanTikz
