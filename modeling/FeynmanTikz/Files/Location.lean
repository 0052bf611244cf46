/-
Locations: names of files, as they are written.

A location is a root and the parts below it.  `Location.ofText` drops empty parts and parts
that stay where they are (`.`); a step upwards (`..`) is kept, because where it leads depends
on the files.

* `Location.ofText`, `Location.text`: reading and writing,
* `Location.parent`: the location without its last part.
-/
import FeynmanTikz.Text.Blank

namespace FeynmanTikz

structure Location where
  /-- Empty, `/` or `//`. -/
  root : String
  parts : List String
deriving DecidableEq

namespace Location

/-- The pieces of a text between its slashes. -/
def pieces : List Char → List (List Char)
  | [] => [[]]
  | c :: rest => if c = '/' then [] :: pieces rest else consFirst c (pieces rest)

/-- The root of a location: exactly two slashes are a root of their own, any other number of
slashes counts as one. -/
def rootOf (t : List Char) : String :=
  match (t.takeWhile (· == '/')).length with
  | 0 => ""
  | 2 => "//"
  | _ => "/"

/-- A part that leads somewhere else. -/
def isStep (part : String) : Bool := !part.isEmpty && part != "."

def ofText (t : String) : Location :=
  ⟨rootOf t.toList, ((pieces t.toList).map String.ofList).filter isStep⟩

/-- The place one starts from is written as a dot. -/
def text (l : Location) : String :=
  if l.root.isEmpty && l.parts.isEmpty then "." else l.root ++ "/".intercalate l.parts

def parent (l : Location) : Location := { l with parts := l.parts.dropLast }

end Location

end FeynmanTikz
