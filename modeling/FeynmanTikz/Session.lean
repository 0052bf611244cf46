/-
Sessions: a live diagram and its text, kept in step.

A session owns a diagram and the text of an editor.  The text is either generated from the
diagram or has been edited; in the second case the session is dirty, and generating leaves
the text alone unless it is forced.

* `Session.regenerate`, `Session.editText`, `Session.apply`, `Session.clear`,
* `Session.start`: a session around a diagram.

Design notes.
* `apply` replaces the diagram only after the whole text has been read; what comes after that
  is validation and writing, which the edit monad would not undo.
* A session without settings of its own uses the ones that hold when it writes.
* An editor holds whatever it has been given; that it is no text shows when it is read.
-/
import FeynmanTikz.Tikz.Document
import FeynmanTikz.Tikz.Writer

namespace FeynmanTikz

structure Session (R : Type) where
  diagram : Diagram R
  /-- The settings of the text format; without them the default ones are used. -/
  codec : Option (Given R (Codec R))
  text : Value R := .text ""
  dirty : Bool := false
  /-- The text generated last. -/
  generated : String := ""

namespace Session

variable {R : Type} [Arithmetic R]

/-- Edits of a session. -/
abbrev Action (R α : Type) := Edit R (Session R) α

/-- Checks the diagram and writes it.  The editor gets the text if it is forced to, or if its
own has not been edited. -/
def regenerate (default : Given R (Codec R)) (force : Bool) : Action R String := do
  let s ← Edit.current
  s.diagram.validate
  let text ← s.diagram.document (s.codec.getD default)
  Edit.update fun s => { s with generated := text }
  if force || !s.dirty then
    Edit.update fun s => { s with text := .text text, dirty := false }
  return text

/-- Replaces the text of the editor by hand. -/
def editText (text : Value R) : Action R Unit :=
  Edit.update fun s => { s with text, dirty := true }

/-- Reads a text, or that of the editor if there is none, and makes its diagram the live
one. -/
def adopt (default : Given R (Codec R)) (text : Value R) : Action R Unit := do
  let s ← Edit.current
  let d ← Diagram.ofTextValue (s.codec.getD default) (if text.isSome then text else s.text)
  Edit.update fun s => { s with diagram := d, dirty := false }

/-- Writes a diagram that has just been adopted. -/
def publish (default : Given R (Codec R)) : Action R Unit := do
  let _ ← regenerate default true
  let s ← Edit.current
  Edit.record (.textApplied s.diagram.elements.length)

/-- Adopts the diagram of a text and writes it. -/
def apply (default : Given R (Codec R)) (text : Value R) : Action R Unit := do
  adopt default text
  publish default

/-- Drops every element of the diagram and writes it. -/
def clear (default : Given R (Codec R)) : Action R Unit := do
  Edit.update fun s => { s with diagram := s.diagram.cleared }
  let _ ← regenerate default true

/-- A session around a diagram, with its text generated. -/
def start (default : Given R (Codec R)) (d : Diagram R) (codec : Option (Given R (Codec R))) :
    Logged R (Session R) :=
  let setUp : Action R (Session R) := do
    let _ ← regenerate default true
    Edit.current
  (setUp { diagram := d, codec }).1

end Session

end FeynmanTikz
