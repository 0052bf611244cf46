/-
The command line: reading one document and writing it in canonical form.

* `Options.ofArguments`: what the arguments ask for, or nothing if they make no sense,
* `threshold`: the least importance of the events that are shown,
* `CommandLine.run`: a whole run over a working directory.

Design notes.
* Exactly one argument names the document; all others belong to flags.  A flag may be cut short
  as long as only one begins that way, and its value may follow an equals sign.
* After a double dash no argument is a flag.
* The document is read before anything is recorded, and nothing is written unless it could be
  read as a diagram.
-/
import FeynmanTikz.Files.Directory
import FeynmanTikz.Listing
import FeynmanTikz.Text.Digit
import FeynmanTikz.Text.Letter
import FeynmanTikz.Tikz.Document
import FeynmanTikz.Tikz.Writer

namespace FeynmanTikz

/-- The flags of the command. -/
inductive Flag where
  | logLevel
  | outputPath
  /-- A place for a picture of the diagram.  Pictures need a canvas, which this library does not
  have, so the value is kept for a caller who does. -/
  | picturePath
  | listing
deriving DecidableEq, Repr

namespace Flag

def name : Flag → String
  | logLevel => "--log-level"
  | outputPath => "--output-path"
  | picturePath => "--png-output-path"
  | listing => "--dump-ir"

def all : List Flag := [logLevel, outputPath, picturePath, listing]

def takesValue : Flag → Bool
  | listing => false
  | _ => true

/-- The flags whose name begins with a text; a full name stands for its flag alone. -/
def named (t : String) : List Flag :=
  match all.filter (·.name == t) with
  | [] => all.filter fun f => f.name.startsWith t
  | exact => exact

end Flag

/-- One argument, by its form alone. -/
inductive Argument where
  /-- The double dash. -/
  | separator
  | plain (text : String)
  /-- A flag, and its value if that follows an equals sign. -/
  | flag (f : Flag) (value : Option String)

/-- Whether a text looks like a negative number: digits after a dash, perhaps with a point among
them or before them.  A final line feed does not count. -/
def looksNegative (t : List Char) : Bool :=
  match t with
  | '-' :: rest =>
    let rest := if rest.getLast? = some '\n' then rest.dropLast else rest
    let whole := rest.takeWhile isDecimalDigit
    match rest.dropWhile isDecimalDigit with
    | [] => !whole.isEmpty
    | '.' :: decimals => !decimals.isEmpty && decimals.all isDecimalDigit
    | _ => false
  | _ => false

/-- The text before the first equals sign and, if there is one, the text after it. -/
def splitAtEquals (t : List Char) : List Char × Option (List Char) :=
  (t.takeWhile (· != '='), (t.dropWhile (· != '=')).tail?)

/-- Reads an argument that begins with a dash. -/
def dashedArgument (t : String) : Option Argument :=
  let (name, value) := splitAtEquals t.toList
  match t.toList with
  | '-' :: '-' :: _ =>
    match Flag.named (String.ofList name) with
    | [f] => some (.flag f (value.map String.ofList))
    | [] => if t.toList.contains ' ' then some (.plain t) else none
    | _ => none
  | _ => if looksNegative t.toList || t.toList.contains ' ' then some (.plain t) else none

/-- Reads one argument before the double dash. -/
def readArgument (t : String) : Option Argument :=
  if t.startsWith "-" && t != "-" then dashedArgument t else some (.plain t)

/-- Reads all arguments.  What follows the double dash is plain. -/
def readArguments : List String → Option (List Argument)
  | [] => some []
  | t :: rest =>
    if t = "--" then some (.separator :: rest.map .plain)
    else do return (← readArgument t) :: (← readArguments rest)

/-- What the arguments ask for. -/
structure Options where
  path : Option String := none
  logLevel : String := "INFO"
  outputPath : Option String := none
  picturePath : Option String := none
  listing : Bool := false

namespace Options

/-- Takes the value of a flag; the last one given counts. -/
def withValue (o : Options) (v : String) : Flag → Options
  | .logLevel => { o with logLevel := v }
  | .outputPath => { o with outputPath := some v }
  | .picturePath => { o with picturePath := some v }
  | .listing => o

/-- Collects arguments.  A double dash may stand right before or right after the path. -/
def collect (o : Options) : List Argument → Option Options
  | [] => if o.path.isSome then some o else none
  | .plain p :: .separator :: rest =>
    if o.path.isSome then none else collect { o with path := some p } rest
  | .plain p :: rest => if o.path.isSome then none else collect { o with path := some p } rest
  | .separator :: rest => if o.path.isSome then none else collect o rest
  | .flag f (some v) :: rest =>
    if f.takesValue then collect (o.withValue v f) rest else none
  | .flag f none :: .plain v :: rest =>
    if f.takesValue then collect (o.withValue v f) rest
    else collect { o with listing := true } (.plain v :: rest)
  | .flag f none :: rest =>
    if f.takesValue then none else collect { o with listing := true } rest
termination_by args => args.length

def ofArguments (args : List String) : Option Options := do
  collect {} (← readArguments args)

end Options

/-- Thresholds by name. -/
def thresholds : List (String × Nat) :=
  [("CRITICAL", 50), ("FATAL", 50), ("ERROR", 40), ("WARNING", 30), ("WARN", 30), ("INFO", 20),
   ("DEBUG", 10), ("NOTSET", 0)]

/-- The threshold a name stands for, in any case.  A name nobody knows stands for that of
`INFO`, except for two names that are taken by something that is no level. -/
def threshold {R : Type} (name : String) : Except (Fault R) Nat :=
  let name := String.ofList (upper name.toList)
  if name = "BASIC_FORMAT" then .error (.refused .unknownLevel)
  else if name = "_STYLES" then .error .wrongType
  else .ok ((thresholds.lookup name).getD Level.info.rank)

/-- The line a log shows for an event. -/
def Event.logLine {R : Type} [Arithmetic R] (e : Event R) : String :=
  e.level.name ++ ":" ++ e.source ++ ":" ++ e.message ++ "\n"

/-- What a run that was not stopped by a fault leaves behind. -/
structure Report where
  exit : Nat
  output : String
  /-- The file that was written, and its text. -/
  written : Option (Location × String) := none

namespace CommandLine

variable {R : Type} [Arithmetic R]

/-- Runs over a working directory. -/
abbrev Run (R α : Type) := Edit R Directory α

/-- The text of a file, with plain line ends. -/
def readText (name : String) : Run R (List Char) := do
  let d ← Edit.current
  let content ← (d.read name : Except (Fault R) ByteArray)
  match String.fromUTF8? content with
  | some t => return plainNewlines t.toList
  | none => Edit.fail .undecodable

/-- Writes a text to a file, creating the folders it needs. -/
def writeText (l : Location) (text : String) : Run R Unit := do
  let d ← Edit.current
  let d ← (d.createFolders l.parent : Except (Fault R) Directory)
  Edit.put d
  Edit.record (.writingFile l.text)
  let d ← (d.write l text.toUTF8 : Except (Fault R) Directory)
  Edit.put d

/-- Hands out the document: to a file, if one is named, else as output. -/
def deliver (o : Options) (document : String) : Run R Report :=
  match o.outputPath with
  | none | some "" => return { exit := 0, output := document }
  | some name => do
    let l := Location.ofText name
    writeText l document
    return { exit := 0, output := "TikZ document written to " ++ l.text ++ "\n",
             written := some (l, document) }

/-- Reads a text as a diagram; nothing, if the text is at fault. -/
def readDiagram (codec : Codec R) (text : List Char) : Run R (Option (Diagram R)) := fun d =>
  let m := Diagram.ofText codec text
  match m.result with
  | .error (.unreadable f) => (⟨m.journal ++ [.readingFailed f], .ok none⟩, d)
  | result => (⟨m.journal, result.map some⟩, d)

/-- Reads the document, checks it and hands out its canonical form. -/
def normalise (o : Options) (path : String) : Run R Report := do
  let codec : Codec R := Codec.standard
  let text ← readText path
  Edit.record (.readingFile path)
  match ← readDiagram codec text with
  | none => return { exit := 1, output := "" }
  | some diagram =>
    diagram.validate
    Edit.record .validated
    if o.listing then
      Edit.record (.listing (← diagram.listing))
    let document ← diagram.document codec
    deliver o document

/-- The outcome of a whole run. -/
structure Outcome (R : Type) where
  /-- What the log shows. -/
  log : String
  result : Except (Fault R) Report
  directory : Directory

/-- A whole run over a working directory; nothing, if the arguments make no sense. -/
def run (args : List String) (d : Directory) : Option (Outcome R) := do
  let o ← Options.ofArguments args
  let path ← o.path
  match (threshold o.logLevel : Except (Fault R) Nat) with
  | .error e => return ⟨"", .error e, d⟩
  | .ok least =>
    let (m, d) := (normalise o path : Run R Report) d
    return ⟨String.join ((eventsFrom least m.journal).map Event.logLine), m.result, d⟩

end CommandLine

end FeynmanTikz
