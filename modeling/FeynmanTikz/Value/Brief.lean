/-
Brief written forms, for log records.

A log record must stay on a screen whatever it shows.  `brief` writes a value like
`Value.written`, but

* an array is summarised by its shape, the kind of its cells and its end points (for a
  list of points) or its extremes,
* an element of a diagram is named by its kind and id,
* a sequence shows its first items only, each written briefly,
* everything else goes through `abridged`, which cuts texts, numbers, dictionaries, sets
  and nested sequences to fixed limits, keeping the start and the end of what it cuts.

Design notes.
* Dictionaries and sets are shown in sorted order, when their members can be sorted.
* `abridged` counts levels down and shows `...` below the last one.
-/
import FeynmanTikz.Value.Access
import FeynmanTikz.Value.Order

namespace FeynmanTikz

/-- How much of each kind of value is shown. -/
structure BriefLimits where
  text : Nat := 30
  whole : Nat := 40
  other : Nat := 160
  items : Nat := 8
  setItems : Nat := 6
  levels : Nat := 6

/-- The limits of log records. -/
def briefLimits : BriefLimits := {}

/-- The items from place `n` on; a negative place counts from the end. -/
def dropSigned {β : Type} (n : Int) (xs : List β) : List β :=
  if n < 0 then xs.drop (xs.length - n.natAbs) else xs.drop n.toNat

/-- Characters kept at the start of a text cut to `limit`, of which three are dots. -/
def keptInFront (limit : Nat) : Nat := (limit - 3) / 2

/-- Characters kept at the end. -/
def keptAtEnd (limit : Nat) : Nat := limit - 3 - keptInFront limit

/-- The first and last characters of a text with dots between them. -/
def abridgedMiddle (limit : Nat) (t : List Char) : List Char :=
  t.take (keptInFront limit) ++ '.' :: '.' :: '.' ::
    dropSigned ((t.length : Int) - keptAtEnd limit) t

/-- A text longer than `limit` loses its middle. -/
def shortened (limit : Nat) (t : List Char) : List Char :=
  if t.length ≤ limit then t else abridgedMiddle limit t

/-- A text whose quoted form is too long is cut twice: before quoting, so that what remains
is not spent on escapes, and after it. -/
def abridgedText (limit : Nat) (t : List Char) : List Char :=
  let whole := quoted (t.take limit)
  if whole.length ≤ limit then whole
  else abridgedMiddle limit (quoted (t.take (keptInFront limit) ++
    dropSigned ((t.length : Int) - keptAtEnd limit) t))

namespace Value

variable {R : Type} [Arithmetic R]

/-- At most `limit` pieces, and dots if there were more. -/
def limited (limit : Nat) (count : Nat) (pieces : List String) : List String :=
  pieces.take limit ++ if limit < count then ["..."] else []

/-- The written form within the limits, with `levels` levels of nesting left. -/
def abridged : (levels : Nat) → Value R → String
  | _, .text t => String.ofList (abridgedText briefLimits.text t.toList)
  | _, .number (.int n) => String.ofList (shortened briefLimits.whole (toString n).toList)
  | levels, .list items => match levels with
    | 0 => if items.isEmpty then "[]" else "[...]"
    | l + 1 => listText (limited briefLimits.items items.length
        ((items.take briefLimits.items).map (abridged l)))
  | levels, .tuple items => match levels with
    | 0 => if items.isEmpty then "()" else "(...)"
    | l + 1 => tupleText (limited briefLimits.items items.length
        ((items.take briefLimits.items).map (abridged l)))
  | levels, .set items => match levels with
    | 0 => if items.isEmpty then "set()" else braced ["..."]
    | l + 1 => setText (limited briefLimits.setItems items.length
        (((sortedIfPossible id items).take briefLimits.setItems).map (abridged l)))
  | levels, .dict entries => match levels with
    | 0 => if entries.isEmpty then braced [] else braced ["..."]
    | l + 1 => braced (limited briefLimits.items entries.length
        (((sortedIfPossible Prod.fst entries).take briefLimits.items).map
          fun e => abridged l e.1 ++ ": " ++ abridged l e.2))
  | _, v => String.ofList (shortened briefLimits.other v.written.toList)

/-- What the number of type `R` nearest to a scalar stands for. -/
def rounded : Scalar R → Reading
  | .int n => Arithmetic.reading (Arithmetic.ofInt n : R)
  | .real x => Arithmetic.reading x

/-- The first of some scalars that `before` prefers, rounded.  An undefined one wins, unless the
cells are of any type, where the later one of two that cannot be compared is taken. -/
def extreme (kind : CellKind) (before : Scalar R → Scalar R → Bool) : List (Scalar R) → Reading
  | [] => .undefined
  | x :: xs =>
    if kind ≠ .mixed ∧ (x :: xs).any fun y => y.reading == .undefined then .undefined
    else rounded (xs.foldl (fun best y => if before best y then best else y) x)

/-- The summary of an array. -/
def gridSummary (g : Grid R) : String :=
  let shape := tupleText (g.shape.map toString)
  let head := "ndarray(shape=" ++ shape ++ ", dtype=" ++ g.kind.name ++ ")"
  if g.cells.isEmpty then head
  else match g.shape with
    | [_, 2] =>
      head ++ ", first=" ++ listText (g.words.take 2) ++
        ", last=" ++ listText (g.words.drop (g.cells.length - 2))
    | _ =>
      head ++ ", min=" ++ general (extreme g.kind Scalar.le g.cells) ++
        ", max=" ++ general (extreme g.kind (fun a b => b.le a) g.cells)

/-- Elements are records with a whole number as id. -/
def elementName? (name : String) (fields : List (String × Value R)) : Option String :=
  match fields.lookup "id" with
  | some (.number (.int n)) => some (name ++ "#" ++ toString n)
  | some (.bool b) => some (name ++ "#" ++ boolText b)
  | _ => Option.none

/-- Items shown of a sequence. -/
def shownItems : Int := 5

/-- Characters shown of anything that is no sequence. -/
def shownLength : Int := 300

/-- The first `n` items, or all but the last `-n` if `n` is negative. -/
def takeSigned {β : Type} (n : Int) (xs : List β) : List β :=
  if n < 0 then xs.take (xs.length - n.natAbs) else xs.take n.toNat

/-- Cuts what is longer than `maxLength` and says so. -/
def truncated (maxLength : Int) (t : String) : String :=
  if maxLength < t.length then String.ofList (takeSigned maxLength t.toList) ++ "... (truncated)"
  else t

/-- A sequence between its brackets; dots stand for the items left out. -/
def briefSequence (opening closing : String) (maxItems : Int) (pieces : List String) : String :=
  opening ++ commaSeparated (takeSigned maxItems pieces ++
    if maxItems < pieces.length then ["..."] else []) ++ closing

mutual

/-- The written form of a value in a log record. -/
def briefWith (maxItems maxLength : Int) : Value R → String
  | .grid g => gridSummary g
  | .list items => briefSequence "[" "]" maxItems (briefItems items)
  | .tuple items => briefSequence "(" ")" maxItems (briefItems items)
  | .record name fields =>
    match elementName? name fields with
    | some t => t
    | Option.none => truncated maxLength (abridged briefLimits.levels (.record name fields))
  | v => truncated maxLength (abridged briefLimits.levels v)

def briefItems : List (Value R) → List String
  | [] => []
  | v :: vs => briefWith shownItems shownLength v :: briefItems vs

end

/-- The written form of a value in a log record, with the usual limits. -/
def brief (v : Value R) : String := briefWith shownItems shownLength v

/-- Cuts what is longer than a limit, which must be whole if it is needed. -/
def truncatedTo (limit : Value R) (t : String) : Except (Fault R) String := do
  if (← limit.expectNumber).lt (.int t.length) then return truncated (← limit.expectInt) t
  else return t

/-- The written form of a value in a log record, with limits of its own.  A limit that does not
matter for the value is not looked at. -/
def briefWithin (maxItems maxLength v : Value R) : Except (Fault R) String :=
  match v with
  | .list _ | .tuple _ => do return briefWith (← maxItems.expectInt) shownLength v
  | .grid _ => .ok v.brief
  | .record name fields =>
    match elementName? name fields with
    | some t => .ok t
    | Option.none => truncatedTo maxLength (abridged briefLimits.levels v)
  | v => truncatedTo maxLength (abridged briefLimits.levels v)

/-- The arguments of a call: those given by position, then those given by name. -/
def briefArguments (positional : List (Value R)) (named : List (String × Value R)) : String :=
  let byPosition := "args=[" ++ commaSeparated (positional.map brief) ++ "]"
  let byName := "kwargs=" ++ braced (named.map fun (n, v) => n ++ "=" ++ v.brief)
  match positional, named with
  | [], [] => "no-args"
  | _ :: _, [] => byPosition
  | [], _ :: _ => byName
  | _ :: _, _ :: _ => byPosition ++ ", " ++ byName

/-- The arguments of a call, when they come as one value each: a collection, and a dictionary.
What is empty or missing stands for no arguments. -/
def briefCall (positional named : Value R) : Except (Fault R) String := do
  let byPosition ← if positional.isTruthy then positional.expectMembers else .ok []
  let byName ← match named with
    | .dict entries => .ok entries
    | v => if v.isTruthy then .error .missingField else .ok []
  return briefArguments byPosition (byName.map fun e => (e.1.plain, e.2))

end Value

end FeynmanTikz
