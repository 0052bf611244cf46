/-
Option lists of a draw statement, and comments that carry an arrow style.

* `splitOptions` cuts an option list at its top-level commas,
* `Effect` is what one entry asks for; `readEntry` recognises it,
* `DrawOptions.ofEffects`: the last colour, width and arrow win, and the stroke kind is the
  first of a fixed order of precedence that any entry asks for,
* `nativeArrow?` recognises tips written around a dash, such as `->` or `-{Stealth}`,
* `isArrowComment` and `arrowOfComment` read `edge-arrow: mid-cross`.

Design notes.
* Entries that ask for nothing known are noted in the journal and otherwise ignored.  The
  only entry that fails is a line width that is no plain number of points.
* Every entry is recognised on its own, so only the order of effects of one kind matters.
-/
import FeynmanTikz.Diagram.Validity
import FeynmanTikz.Journal
import FeynmanTikz.Number.Numeral
import FeynmanTikz.Settings
import FeynmanTikz.Text.Alphanumeric

namespace FeynmanTikz

/-- The pieces between commas outside all brackets.  The depth is counted up at an opening
bracket and down at a closing one of either kind; a character after a backslash counts as
plain. -/
def optionPieces (depth : Int) : List Char → List (List Char)
  | [] => [[]]
  | '\\' :: [] => [['\\']]
  | '\\' :: c :: rest => consFirst '\\' (consFirst c (optionPieces depth rest))
  | c :: rest =>
    if c = '{' ∨ c = '[' then consFirst c (optionPieces (depth + 1) rest)
    else if c = '}' ∨ c = ']' then consFirst c (optionPieces (depth - 1) rest)
    else if c = ',' ∧ depth = 0 then [] :: optionPieces 0 rest
    else consFirst c (optionPieces depth rest)

/-- Pieces without the blanks around them and without those that are blank. -/
def trimmedPieces (pieces : List (List Char)) : List (List Char) :=
  (pieces.map trim).filter (!·.isEmpty)

/-- The entries of an option list, trimmed, without empty ones. -/
def splitOptions (raw : List Char) : List (List Char) := trimmedPieces (optionPieces 0 raw)

/-- The pieces of an option list that is a sequence of words.  A word is taken like a single
character; an empty one, which is part of everything, opens a bracket too. -/
def wordPieces (depth : Int) : List (List Char) → List (List Char)
  | [] => [[]]
  | [['\\']] => [['\\']]
  | ['\\'] :: w :: rest => prependWord ['\\'] (prependWord w (wordPieces depth rest))
  | w :: rest =>
    if Value.occurs w ['{', '['] then prependWord w (wordPieces (depth + 1) rest)
    else if Value.occurs w ['}', ']'] then prependWord w (wordPieces (depth - 1) rest)
    else if w = [','] ∧ depth = 0 then [] :: wordPieces 0 rest
    else prependWord w (wordPieces depth rest)
where
  prependWord (w : List Char) : List (List Char) → List (List Char)
    | [] => [w]
    | p :: ps => (w ++ p) :: ps

/-- What follows `word` at the start of a text. -/
def after? (word : List Char) (t : List Char) : Option (List Char) :=
  if word.isPrefixOf t then some (t.drop word.length) else none

/-- Digits at the start of a text, and what follows; there must be one. -/
def someDigits? (t : List Char) : Option (List Char × List Char) :=
  match spanDigits t with
  | ([], _) => none
  | (ds, rest) => some (ds, rest)

/-- Drops one `c` at the start of a text, if there is one. -/
def dropOptional (c : Char) : List Char → List Char
  | d :: rest => if d = c then rest else d :: rest
  | [] => []

/-- The digits of the components in `rgb,255:red,1;green,2;blue,3`, which may stand in
braces. -/
def rgbDigits? (t : List Char) : Option (List (List Char)) := do
  let t ← after? "rgb,255:red,".toList (dropOptional '{' t)
  let (red, t) ← someDigits? t
  let t ← after? ";green,".toList t
  let (green, t) ← someDigits? t
  let t ← after? ";blue,".toList t
  let (blue, t) ← someDigits? t
  if t = [] ∨ t = ['}'] then some [red, green, blue] else none

/-- Colours with a name. -/
def namedColors : List (String × Int × Int × Int) :=
  [("black", (0, 0, 0)), ("white", (255, 255, 255)), ("red", (255, 0, 0)),
   ("green", (0, 255, 0)), ("blue", (0, 0, 255)), ("cyan", (0, 255, 255)),
   ("magenta", (255, 0, 255)), ("yellow", (255, 255, 0)), ("gray", (128, 128, 128))]

variable {R : Type}

/-- A word of a sequence of words. -/
def expectWords : List (Value R) → Except (Fault R) (List (List Char))
  | [] => .ok []
  | .text w :: rest => do return w.toList :: (← expectWords rest)
  | _ => .error .wrongType

/-- A component of a colour from its digits. -/
def component (ds : List Char) : Except (Fault R) (Value R) :=
  if digitLimit < ds.length then .error (.refused (.tooManyDigits ds.length))
  else .ok (.int (digitsValue ds))

/-- The colour a text describes, if it does. -/
def readColor (t : List Char) : Except (Fault R) (Option (Value R)) :=
  let compact := withoutBlanks t
  match rgbDigits? compact with
  | some ds => do return some (.tuple (← ds.mapM component))
  | none =>
    match namedColors.lookup (String.ofList (lower compact)) with
    | some (r, g, b) => .ok (some (rgb r g b))
    | none => .ok none

/-- Names of arrow tips. -/
def tipNames : List (List Char) :=
  ["latex".toList, "stealth".toList, "to".toList, "triangle".toList, "straight".toList,
   "kite".toList, "circle".toList]

/-- Something that stands where a tip can: an angle, a group without braces inside, or
letters. -/
def spanTip : List Char → List Char × List Char
  | [] => ([], [])
  | c :: rest =>
    if c = '<' ∨ c = '>' then ([c], rest)
    else if c = '{' then
      let inner := rest.takeWhile fun d => d ≠ '{' ∧ d ≠ '}'
      match rest.drop inner.length with
      | '}' :: more => (c :: inner ++ ['}'], more)
      | _ => ([], c :: rest)
    else ((c :: rest).takeWhile isLetter, (c :: rest).dropWhile isLetter)

/-- Whether a text that stands where a tip can is one. -/
def isTip (t : List Char) : Bool :=
  t = ['<'] || t = ['>'] || t.head? = some '{' || tipNames.contains (lower t)

/-- The arrow style of two tips around a dash, any of which may be missing. -/
def arrowOfTips (left right : List Char) : String :=
  match left.isEmpty, right.isEmpty with
  | false, false => "both"
  | true, false => "forward"
  | false, true => "backward"
  | true, true => "none"

/-- The arrow style of an entry that consists of tips around a dash.  A final line feed is
overlooked. -/
def nativeArrow? (entry : List Char) : Option String :=
  let t := entry.filter (· != ' ')
  match spanTip t with
  | (left, '-' :: rest) =>
    let (right, rest) := spanTip rest
    if rest = [] ∨ rest = ['\n'] then
      if (left = [] ∨ isTip left) ∧ (right = [] ∨ isTip right) then some (arrowOfTips left right)
      else none
    else none
  | _ => none

/-- What one entry of an option list asks for. -/
inductive Effect (R : Type) where
  | color (c : Value R)
  | width (w : Value R)
  | stroke (kind : String)
  | arrow (style : String)
  | nothing

/-- Splits an entry at its first equals sign. -/
def keyValue? (entry : List Char) : Option (List Char × List Char) :=
  if entry.contains '=' then
    let key := entry.takeWhile (· ≠ '=')
    some (key, entry.drop (key.length + 1))
  else none

/-- Whether `t` ends in `word`. -/
def endsWith (word : String) (t : List Char) : Bool := word.toList.isSuffixOf t

variable [Arithmetic R]

/-- The entries of an option list that is a text or a sequence of words. -/
def optionEntries : Value R → Except (Fault R) (List (List Char))
  | .text t => .ok (splitOptions t.toList)
  | v => do return trimmedPieces (wordPieces 0 (← expectWords (← v.expectMembers)))

/-- Twice a number of points: stroke widths are twice the width of the line. -/
def readWidth (value : List Char) : Except (Fault R) (Value R) :=
  match mantissa? (value.filter (· != ' ')) with
  | none => .error (.refused (.unsupportedWidth value))
  | some m =>
    if m.rest = "pt".toList then
      let points : R := Arithmetic.ofDecimal (digitsValue (m.whole ++ m.fraction))
        (-m.fraction.length)
      let width := points * Arithmetic.ofInt 2
      if Arithmetic.isFinite width then .ok (.real width)
      else .error (.refused (.widthNotFinite value))
    else .error (.refused (.unsupportedWidth value))

/-- An entry of the form key and value. -/
def readSetting (entry key value : List Char) : Logged R (Effect R) := do
  let key := String.ofList (lower (squeeze key))
  let value := trim value
  if key = "draw" ∨ key = "color" then
    match ← Logged.ofExcept (readColor value) with
    | some c => return .color c
    | none =>
      Logged.record (.colourIgnored value)
      return .nothing
  else if key = "line width" then
    return .width (← Logged.ofExcept (readWidth value))
  else if key = "decoration" then
    if containsWord "snake".toList value then return .stroke "wavy"
    else if containsWord "coil".toList value then return .stroke "spring"
    else return .nothing
  else
    Logged.record (.optionIgnored entry)
    return .nothing

/-- An entry without an equals sign. -/
def readFlag (entry : List Char) : Logged R (Effect R) := do
  let word := lower (squeeze entry)
  if endsWith "dashed" word then return .stroke "dashed"
  else if endsWith "dotted" word then return .stroke "dotted"
  else
    match nativeArrow? entry with
    | some style => return .arrow style
    | none =>
      if word ≠ "decorate".toList then Logged.record (.optionIgnored entry)
      return .nothing

/-- What an entry asks for. -/
def readEntry (entry : List Char) : Logged R (Effect R) :=
  match keyValue? entry with
  | some (key, value) => readSetting entry key value
  | none => readFlag entry

/-- The effects of all entries, in order. -/
def readEntries : List (List Char) → Logged R (List (Effect R))
  | [] => return []
  | entry :: rest => do
    let e ← readEntry entry
    let es ← readEntries rest
    return e :: es

/-- The options of a draw statement. -/
structure DrawOptions (R : Type) where
  strokeKind : String
  arrow : String
  color : Value R
  strokeWidth : Value R

/-- Stroke kinds that entries ask for; an earlier one wins. -/
def strokePrecedence : List String := ["dashed", "dotted", "wavy", "spring"]

/-- The last of the effects that `f` selects, or `default`. -/
def lastEffect {α : Type} (f : Effect R → Option α) (default : α) (es : List (Effect R)) : α :=
  (es.filterMap f).getLast?.getD default

namespace DrawOptions

/-- Last wins, except for the stroke kind. -/
def ofEffects (defaultWidth : Value R) (es : List (Effect R)) : DrawOptions R where
  strokeKind :=
    let asked := es.filterMap fun e => match e with | .stroke k => some k | _ => none
    (strokePrecedence.find? asked.contains).getD "solid"
  arrow := lastEffect (fun e => match e with | .arrow a => some a | _ => none) "none" es
  color := lastEffect (fun e => match e with | .color c => some c | _ => none) black es
  strokeWidth :=
    lastEffect (fun e => match e with | .width w => some w | _ => none) defaultWidth es

/-- The options of a draw statement from its option list. -/
def read (raw : Value R) (codec : Given R (Codec R)) : Logged R (DrawOptions R) := do
  let codec ← codec.settings
  let entries ← optionEntries raw
  let es ← readEntries entries
  return ofEffects codec.defaultStrokeWidth es

end DrawOptions

/-- Characters of the key and the value of an arrow comment. -/
def isKeyChar (c : Char) : Bool := isLetter c || c == '-'

/-- Key and value of a comment of the form `key: value`. -/
def commentParts? (comment : List Char) : Option (List Char × List Char) :=
  match trim comment with
  | [] => none
  | c :: rest =>
    if isLetter c then
      let key := c :: rest.takeWhile isKeyChar
      match trimLeft (rest.dropWhile isKeyChar) with
      | ':' :: more =>
        let value := trimLeft more
        if !value.isEmpty && value.all isKeyChar then some (key, value) else none
      | _ => none
    else none

omit [Arithmetic R] in
/-- Whether a comment carries an arrow style, known or not. -/
def isArrowComment (codec : Given R (Codec R)) (comment : Value R) : Except (Fault R) Bool := do
  match commentParts? (← comment.characters) with
  | some (key, _) => return (← codec.settings).arrowKey.isWord (String.ofList (lower key))
  | none => return false

omit [Arithmetic R] in
/-- The arrow style a comment carries; an unknown one is noted and ignored. -/
def arrowOfComment (codec : Given R (Codec R)) (comment : Value R) :
    Logged R (Option String) := do
  if ← Logged.ofExcept (isArrowComment codec comment) then
    match commentParts? (← comment.characters) with
    | some (_, value) =>
      let style := lower value
      if arrowStyles.contains (String.ofList style) then return some (String.ofList style)
      else
        Logged.record (.arrowIgnored style)
        return none
    | none => return none
  else return none

end FeynmanTikz
