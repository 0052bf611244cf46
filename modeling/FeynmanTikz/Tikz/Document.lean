/-
Reading a text as a diagram.

* `readLine`: what a line holds: nothing, a comment, or a statement,
* `readDocument`: the statements of a text, each with the arrow comment that belongs to it,
* `Diagram.ofStatements`: the diagram some statements describe,
* `Diagram.ofText`: both together.

Design notes.
* Nothing is handed out unless every line can be read and every element is valid.
* A comment line with an arrow style belongs to the edge on the line right above it, unless
  that edge has one of its own.
* Elements are created kind by kind, so ids do not depend on how kinds are interleaved.
-/
import FeynmanTikz.Diagram.Editing
import FeynmanTikz.Text.Line
import FeynmanTikz.Tikz.Options
import FeynmanTikz.Tikz.Statement

namespace FeynmanTikz

variable {R : Type} [Arithmetic R]

/-- What a line holds. -/
inductive LineContent (R : Type) where
  | blank
  | comment (text : Value R)
  | statement (s : Statement R)

/-- A failure on a line, with the line as an excerpt if there is anything to show. -/
def withExcerpt (line : List Char) : Fault R → Fault R
  | .unreadable f =>
    if line.isEmpty ∨ f.place.isNone then .unreadable f
    else .unreadable { f with excerpt := some line }
  | e => e

/-- The content of line number `n`. -/
def readLine (codec : Given R (Codec R)) (n : Nat) (line : List Char) :
    Except (Fault R) (LineContent R) := do
  let tokens ← tokenize (.int n) line
  match ← readStatement codec tokens, tokens with
  | some s, _ => return .statement s
  | none, [] => return .blank
  | none, t :: _ => return .comment t.text

/-- The statement above a comment line takes the comment if that carries an arrow style, the
statement is an edge, and the edge has no arrow comment yet. -/
def withComment (codec : Given R (Codec R)) (s : Statement R) (comment : Value R) :
    Except (Fault R) (Statement R) := do
  if (← isArrowComment codec comment) && s.body.isEdge then
    return if ← isArrowComment codec s.comment then s else { s with comment }
  else return s

/-- The statements on some lines, the first of which is number `n`.  `above` is the statement on
the line right above, which may still take a comment. -/
def readLines (codec : Given R (Codec R)) (n : Nat) (above : Option (Statement R)) :
    List (List Char) → Logged R (List (Statement R))
  | [] => return above.toList
  | line :: rest => do
    match ← Logged.ofExcept ((readLine codec n line).mapError (withExcerpt line)) with
    | .blank =>
      let ss ← readLines codec (n + 1) none rest
      return above.toList ++ ss
    | .comment c =>
      let above ← above.mapM fun s => Logged.ofExcept (withComment codec s c)
      let ss ← readLines codec (n + 1) none rest
      return above.toList ++ ss
    | .statement s =>
      Logged.record (.statementRead n s.body.kind)
      let ss ← readLines codec (n + 1) (some s) rest
      return above.toList ++ ss

/-- The statements of a text. -/
def readDocument (codec : Given R (Codec R)) (text : List Char) :
    Logged R (List (Statement R)) :=
  readLines codec 1 none (lines text)

/-- A fault while a statement is turned into an element is a failure to read that
statement. -/
def atStatement (p : Place R) : Fault R → Fault R
  | .invalid v => .unreadable { place := some p, problem := .invalidElement v }
  | .refused c => .unreadable { place := some p, problem := .unusableOption c }
  | e => e

/-- Runs an edit for a statement. -/
def forStatement {α : Type} (s : Statement R) (m : Diagram.Mutation R α) :
    Diagram.Mutation R Unit := fun d =>
  let (r, d') := m d
  (⟨r.journal, (r.result.mapError (atStatement s.place)).map fun _ => ()⟩, d')

/-- The style of an edge: its options, and the arrow its comment carries, if any. -/
def edgeStyle (codec : Given R (Codec R)) (options comment : Value R) : Logged R (Value R) := do
  let o ← DrawOptions.read options codec
  let arrow ← arrowOfComment codec comment
  return Style.value ⟨.text o.strokeKind, o.color, o.strokeWidth, .text (arrow.getD o.arrow)⟩

/-- Adds what a statement describes, if it is of the kind `wanted`. -/
def addStatement (codec : Given R (Codec R)) (wanted : String) (s : Statement R) :
    Diagram.Mutation R Unit :=
  if s.body.kind ≠ wanted then pure ()
  else match s.body with
    | .point position radius =>
      forStatement s (Diagram.createPoint position radius)
    | .edge start finish control options => forStatement s do
      let style ← edgeStyle codec options s.comment
      let kind := if control.isSome then "curve" else "straight"
      Diagram.createEdge (.text kind) start finish (control.getD .none) style
    | .ellipse center rx ry options => forStatement s do
      let o ← DrawOptions.read options codec
      Diagram.createEllipse center rx ry o.color o.strokeWidth
    | .label position text =>
      forStatement s (Diagram.createLabel position (.text (String.ofList text)))
    | .beginPicture | .endPicture => pure ()

/-- Adds what some statements describe, as far as they are of the kind `wanted`. -/
def addStatements (codec : Given R (Codec R)) (wanted : String) :
    List (Statement R) → Diagram.Mutation R Unit
  | [] => pure ()
  | s :: rest => do
    addStatement codec wanted s
    addStatements codec wanted rest

namespace Diagram

/-- The diagram some statements describe: points, edges, ellipses, labels. -/
def ofStatements (codec : Given R (Codec R)) (ss : List (Statement R)) : Logged R (Diagram R) :=
  let build : Mutation R (Diagram R) := do
    addStatements codec "point" ss
    addStatements codec "edge" ss
    addStatements codec "ellipse" ss
    addStatements codec "label" ss
    let d ← Edit.current
    let last ← (d.maxId : Except (Fault R) (Value R))
    Edit.put (d.reserve (← (last.expectNumber : Except (Fault R) (Scalar R))))
    Edit.current
  (build empty).1

/-- The diagram a text describes. -/
def ofText (codec : Given R (Codec R)) (text : List Char) : Logged R (Diagram R) := do
  let ss ← readDocument codec text
  let d ← ofStatements codec ss
  Logged.record (.diagramRead d.tally)
  return d

/-- The diagram a value describes that should be a text.  Anything else has no lines. -/
def ofTextValue (codec : Given R (Codec R)) (v : Value R) : Logged R (Diagram R) :=
  match v with
  | .text t => ofText codec t.toList
  | _ => Logged.fail .missingField

end Diagram

end FeynmanTikz
