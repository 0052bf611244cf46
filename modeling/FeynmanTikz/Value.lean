/-
Values: what an element's field may hold before anyone has looked at it.

Elements are built from data that comes from outside: a script, an editor, a file.  A
position may then be a pair of numbers, but also a word, a list of three, or nothing.
`Value R` is the type of such data.  The validator reads a value as what it should be, or
quotes its written form in a message.

* `Value.written` is that written form: `(1, 2.5)`, `'text'`, `None`, `[True]`,
* `Value.asNumber?` and `Value.items?` look into a value, `Grid.parts?` takes an array apart,
* `Value.key?` is what tells a value from others when it is used as an id,
* `Value.same` compares two values.

Design notes.
* Pairs and lists are told apart, because the written form does.
* Truth values count as whole numbers in arithmetic and as ids, but the validator does not
  take them for numbers.  Neither does it take an array without dimensions for one, which is what
  remains of an array of whole numbers when a single one is taken out.
* What can be changed from outside, such as a list, has no key and cannot be an id.
* An undefined number can be an id, but as it equals nothing it is never found under it.
-/
import FeynmanTikz.Text.Quoted
import FeynmanTikz.Value.Grid

namespace FeynmanTikz

/-- A piece of a key. -/
inductive KeyPart where
  | number (q : Rat)
  | infinite (negative : Bool)
  | undefined
  | text (t : String)
  /-- Something there is only one of, by its written form. -/
  | word (written : String)
  | opening
  | closing
deriving DecidableEq

/-- What tells a value from others when it is used as an id: what it is made of, in order, with
marks around the items of a tuple.  `1`, `1.0` and a true truth value have the same key. -/
structure Key where
  parts : List KeyPart
deriving DecidableEq

/-- Whether there is no undefined number in a key.  Such a number equals nothing, so what has it
in its key is never found again. -/
def Key.isDefined (k : Key) : Bool := k.parts.all (· ≠ .undefined)

/-- Data of no particular type. -/
inductive Value (R : Type) where
  | none
  | bool (b : Bool)
  | number (x : Scalar R)
  | text (t : String)
  | list (items : List (Value R))
  | tuple (items : List (Value R))
  | set (items : List (Value R))
  | dict (entries : List (Value R × Value R))
  | grid (g : Grid R)
  /-- A named collection of named fields. -/
  | record (name : String) (fields : List (String × Value R))
  /-- Something that is only known by name, such as a function. -/
  | symbol (name : String)
deriving Inhabited

namespace Value

variable {R : Type} [Arithmetic R]

/-- The two written forms of a truth value. -/
def boolText (b : Bool) : String := if b then "True" else "False"

/-- Pieces with a comma and a space between them. -/
def commaSeparated (pieces : List String) : String := ", ".intercalate pieces

/-- The written form of a tuple; a single item is followed by a comma. -/
def tupleText : List String → String
  | [p] => "(" ++ p ++ ",)"
  | ps => "(" ++ commaSeparated ps ++ ")"

def listText (pieces : List String) : String := "[" ++ commaSeparated pieces ++ "]"

def braced (pieces : List String) : String := "\x7b" ++ commaSeparated pieces ++ "\x7d"

/-- The written form of a set; the empty one cannot be told from a dictionary otherwise. -/
def setText (pieces : List String) : String :=
  if pieces.isEmpty then "set()" else braced pieces

mutual

/-- The written form: what a reader would have to write to obtain the value. -/
def written : Value R → String
  | .none => "None"
  | .bool b => boolText b
  | .number x => x.text
  | .text t => quotedString t.toList
  | .list items => listText (writtenItems items)
  | .tuple items => tupleText (writtenItems items)
  | .set items => setText (writtenItems items)
  | .dict entries => braced (writtenEntries entries)
  | .grid g => g.written
  | .record name fields => name ++ "(" ++ commaSeparated (writtenFields fields) ++ ")"
  | .symbol name => name

def writtenItems : List (Value R) → List String
  | [] => []
  | v :: vs => v.written :: writtenItems vs

def writtenEntries : List (Value R × Value R) → List String
  | [] => []
  | (k, v) :: rest => (k.written ++ ": " ++ v.written) :: writtenEntries rest

def writtenFields : List (String × Value R) → List String
  | [] => []
  | (name, v) :: rest => (name ++ "=" ++ v.written) :: writtenFields rest

end

/-- The text of a value inside running text: like the written form, but a text stands for
itself, and an array without dimensions for its cell. -/
def plain : Value R → String
  | .text t => t
  | .grid g => if g.shape.isEmpty then String.join g.words else g.written
  | v => v.written

/-- The pair of two scalars. -/
def pair (x y : Scalar R) : Value R := .tuple [.number x, .number y]

def int (n : Int) : Value R := .number (.int n)

def real (x : R) : Value R := .number (.real x)

/-- The number a value is in arithmetic, where truth values are `0` and `1`. -/
def asNumber? : Value R → Option (Scalar R)
  | .bool b => some (.int (if b then 1 else 0))
  | .number x => some x
  | .grid g => g.single?
  | _ => Option.none

/-- A cell of an array on its own.  A number of type `R` is no longer one of an array, and neither is a
cell among numbers of any type. -/
def ofCell (kind : CellKind) (x : Scalar R) (truth : Bool) : Value R :=
  match kind with
  | .float => .number x
  | .mixed => if truth then .bool (!x.reading.isZero) else .number x
  | _ => .grid { kind, shape := [], cells := [x] }

omit [Arithmetic R] in
/-- The items of a value that is a sequence; a text is a sequence of its characters. -/
def items? : Value R → Option (List (Value R))
  | .list items | .tuple items => some items
  | .text t => some (t.toList.map fun c => .text (String.singleton c))
  | _ => Option.none

/-- Whether a condition that asks for the value would hold: nothing, zero and what is empty
do not. -/
def isTruthy : Value R → Bool
  | .none => false
  | .bool b => b
  | .number x => !x.reading.isZero
  | .text t => !t.isEmpty
  | .list items | .tuple items | .set items => !items.isEmpty
  | .dict entries => !entries.isEmpty
  | _ => true

mutual

/-- Whether a value can be told from others by its content for good. -/
def isFixed : Value R → Bool
  | .none | .bool _ | .number _ | .text _ | .symbol _ => true
  | .tuple items => areFixed items
  | .list _ | .set _ | .dict _ | .grid _ | .record .. => false

def areFixed : List (Value R) → Bool
  | [] => true
  | v :: vs => v.isFixed && areFixed vs

end

/-- The piece of a key a number is. -/
def numberPart (x : Scalar R) : KeyPart :=
  match x.reading with
  | .finite _ q => .number q
  | .infinite n => .infinite n
  | .undefined => .undefined

mutual

/-- What a value is made of, as pieces of a key. -/
def keyParts : Value R → List KeyPart
  | .bool b => [numberPart (R := R) (.int (if b then 1 else 0))]
  | .number x => [numberPart x]
  | .text t => [.text t]
  | .tuple items => .opening :: (keyPartsOf items ++ [.closing])
  | v => [.word v.written]

def keyPartsOf : List (Value R) → List KeyPart
  | [] => []
  | v :: vs => v.keyParts ++ keyPartsOf vs

end

/-- The key of a value, if the value can be found again by it. -/
def key? (v : Value R) : Option Key :=
  if v.isFixed && Key.isDefined ⟨v.keyParts⟩ then some ⟨v.keyParts⟩ else Option.none

/-- Whether some values include one with the given key. -/
def anyKeyed (k : Option Key) (vs : List (Value R)) : Bool :=
  k.isSome && vs.any fun v => v.key? = k

mutual

/-- Whether two values are equal.  Numbers are equal by what they stand for, sequences item by
item, and sets and dictionaries whatever their order. -/
def same : Value R → Value R → Bool
  | .none, .none => true
  | .text t, .text u => t == u
  | .list items, .list others => sameItems items others
  | .tuple items, .tuple others => sameItems items others
  | .set items, .set others =>
    items.length == others.length && items.all fun v => anyKeyed v.key? others
  | .dict entries, .dict others => entries.length == others.length && sameEntries entries others
  | .grid g, .grid h =>
    match g.single?, h.single? with
    | some x, some y => x.same y
    | _, _ => g.written == h.written
  | .record name fields, .record other others => name == other && sameFields fields others
  | .symbol name, .symbol other => name == other
  | a, b =>
    match a.asNumber?, b.asNumber? with
    | some x, some y => x.same y
    | _, _ => false

def sameItems : List (Value R) → List (Value R) → Bool
  | [], [] => true
  | v :: vs, w :: ws => v.same w && sameItems vs ws
  | _, _ => false

/-- Whether each of some entries is among some others. -/
def sameEntries : List (Value R × Value R) → List (Value R × Value R) → Bool
  | [], _ => true
  | (k, v) :: rest, others =>
    (match others.find? fun e => e.1.key? = k.key? && k.key?.isSome with
      | some (_, w) => v.same w
      | Option.none => false) && sameEntries rest others

def sameFields : List (String × Value R) → List (String × Value R) → Bool
  | [], [] => true
  | (name, v) :: fields, (other, w) :: others =>
    name == other && v.same w && sameFields fields others
  | _, _ => false

end

omit [Arithmetic R] in
/-- Whether a value is the given word. -/
def isWord (word : String) (v : Value R) : Bool :=
  match v with
  | .text t => t == word
  | _ => false

omit [Arithmetic R] in
/-- Whether there is a value at all. -/
def isSome : Value R → Bool
  | .none => false
  | _ => true

end Value

/-- The parts of an array along its first dimension, if it has one. -/
def Grid.parts? {R : Type} [Arithmetic R] (g : Grid R) : Option (List (Value R)) :=
  match g.shape with
  | [] => none
  | [_] => some (g.cells.mapIdx fun i x => .ofCell g.kind x (g.truths.getD i false))
  | n :: rest =>
    let size := rest.foldl (· * ·) 1
    some (List.zipWith (fun cells truths => .grid { g with shape := rest, cells, truths })
      (pieces size n g.cells) (pieces size n g.truths))

end FeynmanTikz
