/-
Computations that keep a journal and may fail, and computations that also edit a state.

* `Event`: what can be recorded, with its level, its source and its message,
* `Logged R α`: a result or a fault, and the events recorded on the way,
* `Edit R σ α`: the same over a state `σ`.  When an edit fails, the state is what had been
  written up to then: nothing is rolled back by the type, so an operation that leaves no
  trace of a failure does so because of the order of its steps.

Main facts: `Logged.result_bind` and its companions.  Taking the result commutes with every
way of composing computations, so a statement about results never mentions the journal.

Design notes.
* The message of an event is not computed until somebody asks for it.
* `Logged.around` records entering and leaving a call.  The call is described by its
  arguments as they were given, by position or by name.
-/
import FeynmanTikz.Fault
import FeynmanTikz.Value.Brief

namespace FeynmanTikz

/-- How important an event is. -/
inductive Level where
  | debug
  | info
  | warning
  | error
deriving DecidableEq, Repr

def Level.name : Level → String
  | debug => "DEBUG"
  | info => "INFO"
  | warning => "WARNING"
  | error => "ERROR"

/-- The importance of a level as a number, against which a threshold is set. -/
def Level.rank : Level → Nat
  | debug => 10
  | info => 20
  | warning => 30
  | error => 40

/-- How many elements of each kind there are. -/
structure Tally where
  points : Nat
  edges : Nat
  ellipses : Nat
  labels : Nat
deriving DecidableEq, Repr

def Tally.message (t : Tally) : String :=
  toString t.points ++ " point(s), " ++ toString t.edges ++ " edge(s), " ++
    toString t.ellipses ++ " ellipse(s), " ++ toString t.labels ++ " label(s)"

/-- A call as it was written: arguments by position, then by name. -/
structure Call (R : Type) where
  name : String
  positional : List (Value R)
  named : List (String × Value R) := []

/-- What a journal records. -/
inductive Event (R : Type) where
  | statementRead (line : Nat) (kind : String)
  | colourIgnored (value : List Char)
  | optionIgnored (entry : List Char)
  | arrowIgnored (style : List Char)
  | diagramRead (tally : Tally)
  | diagramWritten (tally : Tally)
  | labelReleased (label edge : Value R)
  | textApplied (elements : Nat)
  | readingFile (path : String)
  | readingFailed (failure : ReadFailure R)
  | validated
  | listing (text : String)
  | writingFile (path : String)
  | entering (call : Call R)
  | leaving (name : String) (result : Value R)
  | failing (name : String)

namespace Event

variable {R : Type}

def level : Event R → Level
  | statementRead .. | colourIgnored .. | optionIgnored .. | diagramWritten .. | entering ..
  | leaving .. => .debug
  | diagramRead .. | labelReleased .. | textApplied .. | readingFile .. | validated
  | listing .. | writingFile .. => .info
  | arrowIgnored .. => .warning
  | readingFailed .. | failing .. => .error

/-- The part of the program an event comes from, as it stands in a log. -/
def source : Event R → String
  | statementRead .. | diagramRead .. => "feynman_ir.parser"
  | colourIgnored .. | optionIgnored .. | arrowIgnored .. => "feynman_ir.attrs"
  | diagramWritten .. => "feynman_ir.tikz_codegen.generator"
  | labelReleased .. => "feynman_ir.ir"
  | textApplied .. => "feynman_ir.session"
  | readingFile .. | readingFailed .. | validated | listing .. | writingFile .. =>
    "feynman_ir.__main__"
  | entering .. | leaving .. | failing .. => "feynman_ir.paths"

/-- Calls are recorded in full or not at all: a failing call is recorded as an error, but
only where entering it was recorded too. -/
def isTrace : Event R → Bool
  | entering .. | leaving .. | failing .. => true
  | _ => false

variable [Arithmetic R]

/-- An id as a whole number, without what may follow a point. -/
def idDigits (id : Value R) : String :=
  match id.asNumber? with
  | some (.int n) => toString n
  | some (.real x) => match Scalar.truncate x with
    | .ok n => toString n
    | .error _ => id.plain
  | none => id.plain

def message : Event R → String
  | statementRead line kind => "line " ++ toString line ++ ": " ++ kind
  | colourIgnored value => "Ignoring unsupported color " ++ quotedString value
  | optionIgnored entry => "Ignoring option " ++ quotedString entry
  | arrowIgnored style => "Ignoring unknown arrow style " ++ quotedString style ++ " in comment"
  | diagramRead t => "Parsed " ++ t.message
  | diagramWritten t => "Serialized " ++ t.message
  | labelReleased label edge =>
    "Label #" ++ idDigits label ++ " unbound from deleted edge #" ++ idDigits edge
  | textApplied n => "Applied text: " ++ toString n ++ " element(s) now live"
  | readingFile path => "Parsing diagram from " ++ path
  | readingFailed f => "Parse failed: " ++ f.message
  | validated => "Validation succeeded"
  | listing text => "Diagram IR:\n" ++ text
  | writingFile path => "Writing TikZ document to " ++ path
  | entering c =>
    "Entering " ++ c.name ++ " (" ++ Value.briefArguments c.positional c.named ++ ")"
  | leaving name result => "Exiting " ++ name ++ " -> " ++ result.brief
  | failing name => "Exception in " ++ name

end Event

/-- The events a log with a threshold shows. -/
def eventsFrom {R : Type} (threshold : Nat) (journal : List (Event R)) : List (Event R) :=
  journal.filter fun e =>
    threshold ≤ e.level.rank && (!e.isTrace || threshold ≤ Level.debug.rank)

/-- A result or a fault, and the events recorded on the way. -/
structure Logged (R : Type) (α : Type) where
  journal : List (Event R)
  result : Except (Fault R) α

namespace Logged

variable {R α β : Type}

/-- A computation that records nothing. -/
def ofExcept (r : Except (Fault R) α) : Logged R α := ⟨[], r⟩

/-- The second computation runs only if the first succeeds; the journals follow each other. -/
protected def bind (m : Logged R α) (f : α → Logged R β) : Logged R β :=
  match m.result with
  | .error e => ⟨m.journal, .error e⟩
  | .ok a => ⟨m.journal ++ (f a).journal, (f a).result⟩

instance : Monad (Logged R) where
  pure a := ⟨[], .ok a⟩
  bind := Logged.bind

def fail (e : Fault R) : Logged R α := ⟨[], .error e⟩

def record (e : Event R) : Logged R Unit := ⟨[e], .ok ()⟩

instance : MonadLift (Except (Fault R)) (Logged R) := ⟨ofExcept⟩

/-- Records entering the call, then either its result or its failure. -/
def around (call : Call R) (shown : α → Value R) (body : Logged R α) : Logged R α :=
  { journal := .entering call :: body.journal ++
      [match body.result with
        | .ok a => .leaving call.name (shown a)
        | .error _ => .failing call.name]
    result := body.result }

@[simp] theorem result_pure (a : α) : (pure a : Logged R α).result = .ok a := rfl

@[simp] theorem result_ofExcept (r : Except (Fault R) α) : (ofExcept r).result = r := rfl

@[simp] theorem result_fail (e : Fault R) : (fail e : Logged R α).result = .error e := rfl

@[simp] theorem result_record (e : Event R) : (record e).result = .ok () := rfl

@[simp] theorem result_around (c : Call R) (s : α → Value R) (m : Logged R α) :
    (around c s m).result = m.result := rfl

@[simp] theorem result_bind (m : Logged R α) (f : α → Logged R β) :
    (m >>= f).result = m.result >>= fun a => (f a).result := by
  show (Logged.bind m f).result = _
  unfold Logged.bind
  cases m.result <;> rfl

@[simp] theorem result_map (f : α → β) (m : Logged R α) : (f <$> m).result = f <$> m.result := by
  show (Logged.bind m _).result = _
  unfold Logged.bind
  cases m.result <;> rfl

end Logged

/-- A computation that keeps a journal, may fail, and edits a state.  The state after a
failure is the state reached by then. -/
def Edit (R σ α : Type) : Type := σ → Logged R α × σ

namespace Edit

variable {R σ τ α β : Type}

protected def bind (m : Edit R σ α) (f : α → Edit R σ β) : Edit R σ β := fun s =>
  match m s with
  | (⟨journal, .error e⟩, s') => (⟨journal, .error e⟩, s')
  | (⟨journal, .ok a⟩, s') =>
    let (next, s'') := f a s'
    (⟨journal ++ next.journal, next.result⟩, s'')

instance : Monad (Edit R σ) where
  pure a := fun s => (pure a, s)
  bind := Edit.bind

/-- The state as it is. -/
def current : Edit R σ σ := fun s => (pure s, s)

/-- Replaces the state. -/
def put (s : σ) : Edit R σ Unit := fun _ => (pure (), s)

/-- Changes the state; this cannot fail. -/
def update (f : σ → σ) : Edit R σ Unit := fun s => (pure (), f s)

/-- A computation that leaves the state alone. -/
def ofLogged (m : Logged R α) : Edit R σ α := fun s => (m, s)

def fail (e : Fault R) : Edit R σ α := ofLogged (.fail e)

def record (e : Event R) : Edit R σ Unit := ofLogged (.record e)

instance : MonadLift (Logged R) (Edit R σ) := ⟨ofLogged⟩

instance : MonadLift (Except (Fault R)) (Edit R σ) := ⟨fun r => ofLogged (.ofExcept r)⟩

/-- Runs an edit on a part of a larger state. -/
def zoom (get : σ → τ) (set : τ → σ → σ) (m : Edit R τ α) : Edit R σ α := fun s =>
  let (r, t) := m (get s)
  (r, set t s)

end Edit

end FeynmanTikz
