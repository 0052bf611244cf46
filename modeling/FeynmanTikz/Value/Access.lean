/-
Looking into values, with a fault when they are not what is asked for.

* `expectNumber`, `expectReal`, `expectText`, `expectInt`, `characters`: a value of one type,
* `expectMembers`: the members of a collection of any type; `expectPair`: both of a pair,
* `item i`: what is found under an index; `firstTwo`: what is found under `0` and `1`,
* `contains`: whether a value is one of those in a collection,
* `Field σ`: a named field of a structure `σ` that can be read and replaced as a value, and
  `recordOf`, `withFields`, which turn a list of fields into a record and back; `withField`
  replaces a single one.
-/
import FeynmanTikz.Fault

namespace FeynmanTikz

/-- The faults of arithmetic among all faults. -/
def liftArithmetic {R α : Type} : Except ArithmeticFault α → Except (Fault R) α
  | .ok a => .ok a
  | .error e => .error (.arithmetic e)

namespace Value

variable {R : Type} [Arithmetic R]

def expectNumber (v : Value R) : Except (Fault R) (Scalar R) :=
  match v.asNumber? with
  | some x => .ok x
  | Option.none => .error .wrongType

/-- A number of type `R`, or a whole number that fits into `R`. -/
def expectReal (v : Value R) : Except (Fault R) R := do
  liftArithmetic (← v.expectNumber).toReal

def expectText : Value R → Except (Fault R) String
  | .text t => .ok t
  | _ => .error .wrongType

/-- The characters of a text; nothing else can be taken apart. -/
def characters : Value R → Except (Fault R) (List Char)
  | .text t => .ok t.toList
  | _ => .error .missingField

/-- A whole number; one of type `R` is none, whatever it stands for. -/
def expectInt (v : Value R) : Except (Fault R) Int :=
  match v.asNumber? with
  | some (.int n) => .ok n
  | _ => .error .wrongType

def expectItems (v : Value R) : Except (Fault R) (List (Value R)) :=
  match v.items? with
  | some items => .ok items
  | Option.none => .error .wrongType

/-- The parts of an array along its first dimension.  An array without dimensions has none. -/
def expectParts (g : Grid R) : Except (Fault R) (List (Value R)) :=
  match g.parts? with
  | some parts => .ok parts
  | Option.none => .error .wrongType

/-- What is met on the way through a value: items, members, keys, the characters of a text, or the
parts of an array. -/
def expectMembers : Value R → Except (Fault R) (List (Value R))
  | .set items => .ok items
  | .dict entries => .ok (entries.map Prod.fst)
  | .grid g => expectParts g
  | v => v.expectItems

/-- The entry of a dictionary under a key. -/
def entry (entries : List (Value R × Value R)) (k : Value R) : Except (Fault R) (Value R) :=
  match entries.find? fun e => e.1.key? = k.key? with
  | some (_, v) => .ok v
  | Option.none => .error (.missingKey k)

/-- Number `i` of some parts. -/
def partAt (parts : List (Value R)) (i : Nat) : Except (Fault R) (Value R) :=
  match parts[i]? with
  | some v => .ok v
  | Option.none => .error .outOfBounds

/-- What is found in a value under index `i`: an item of a sequence, the entry of a dictionary under
this number, or a part of an array. -/
def item (v : Value R) (i : Nat) : Except (Fault R) (Value R) :=
  match v with
  | .dict entries => entry entries (.int i)
  | .grid g => partAt (g.parts?.getD []) i
  | v => do partAt (← v.expectItems) i

/-- A pair made of what is found under the indices `0` and `1`.  Anything else is dropped, and nothing
is asked of the two. -/
def firstTwo (v : Value R) : Except (Fault R) (Value R) := do
  let x ← v.item 0
  let y ← v.item 1
  return .tuple [x, y]

/-- The members of a collection of just two. -/
def expectPair (v : Value R) : Except (Fault R) (Value R × Value R) := do
  match ← v.expectMembers with
  | [x, y] => return (x, y)
  | _ => .error (.refused .wrongCount)

/-- The key of a value that can be an id. -/
def expectKey (v : Value R) : Except (Fault R) Key :=
  if v.isFixed then .ok ⟨v.keyParts⟩ else .error .wrongType

/-- A record with one field replaced.  A name that is none of its fields changes nothing. -/
def replacing (v : Value R) (name : String) (new : Value R) : Except (Fault R) (Value R) :=
  match v with
  | .record n fields =>
    .ok (.record n (fields.map fun f => if f.1 = name then (f.1, new) else f))
  | _ => .error .missingField

/-- Whether `part` stands somewhere in a text. -/
def occurs (part : List Char) : List Char → Bool
  | [] => part.isEmpty
  | c :: rest => part.isPrefixOf (c :: rest) || occurs part rest

/-- Whether a collection contains a value.  A set is searched by key, and so are the keys of a
dictionary; a text contains its parts. -/
def contains (collection v : Value R) : Except (Fault R) Bool :=
  match collection with
  | .list items | .tuple items => .ok (items.any (·.same v))
  | .set items => do
    let k ← v.expectKey
    return items.any fun x => x.key? = some k
  | .dict entries => do
    let k ← v.expectKey
    return entries.any fun e => e.1.key? = some k
  | .text t => do return occurs (← v.expectText).toList t.toList
  | _ => .error .wrongType

end Value

/-- A named part of a structure, as a value. -/
structure Field (R σ : Type) where
  name : String
  get : σ → Value R
  set : Value R → σ → σ

section

variable {R σ : Type}

/-- The record of a structure. -/
def recordOf (name : String) (fields : List (Field R σ)) (s : σ) : Value R :=
  .record name (fields.map fun f => (f.name, f.get s))

/-- The structure with some fields replaced, in order. -/
def withFields (fields : List (Field R σ)) (s : σ) :
    List (String × Value R) → Except (Fault R) σ
  | [] => .ok s
  | (name, v) :: rest =>
    match fields.find? (·.name == name) with
    | some f => withFields fields (f.set v s) rest
    | none => .error .wrongType

/-- The structure with one field replaced.  A name that is none of its fields changes
nothing. -/
def withField (fields : List (Field R σ)) (name : String) (v : Value R) (s : σ) : σ :=
  match fields.find? (·.name == name) with
  | some f => f.set v s
  | none => s

/-- The structure a record of the given name describes; fields that are missing keep the value
they have in `start`.  Anything else lacks the fields that are asked for. -/
def ofRecord (name : String) (fields : List (Field R σ)) (start : σ) :
    Value R → Except (Fault R) σ
  | .record n given => if n = name then withFields fields start given else .error .missingField
  | _ => .error .missingField

end

end FeynmanTikz
