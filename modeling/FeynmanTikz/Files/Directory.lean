/-
A working directory: files and folders by their place.

* `Directory.find`: what a text that names a file leads to,
* `Directory.read`, `Directory.write`: the content of a file,
* `Directory.createFolders`: a folder with everything above it.

Design notes.
* A place is a list of names below the working directory.  A step out of it is kept as the
  name `..`, an absolute root as a name too.  Places outside are folders nobody looks into:
  what is written there is lost to this directory.
* Every step on the way to a file must start from a folder, also one that stays or goes up.
-/
import FeynmanTikz.Fault
import FeynmanTikz.Files.Location

namespace FeynmanTikz

/-- What stands at a place. -/
inductive Entry where
  | file (content : ByteArray)
  | folder

structure Directory where
  /-- What stands below the working directory, by the names that lead there. -/
  entries : List (List String × Entry) := []

namespace Directory

variable {R : Type}

/-- The working directory itself and what lies above it. -/
def isAbove (place : List String) : Bool :=
  place.all fun name => name == ".." || name.startsWith "/"

/-- What stands at a place. -/
def at? (d : Directory) (place : List String) : Option Entry :=
  if isAbove place then some .folder else d.entries.lookup place

/-- The folder above a place. -/
def up (place : List String) : List String :=
  if isAbove place then place ++ [".."] else place.dropLast

/-- Follows steps from a place.  Every step but the last must lead to a folder. -/
def follow (d : Directory) (place : List String) : List String → Except (Fault R) (List String)
  | [] => .ok place
  | step :: rest =>
    match d.at? place with
    | none => .error .missingFile
    | some (.file _) => .error .notADirectory
    | some .folder =>
      if step.isEmpty || step == "." then follow d place rest
      else if step == ".." then follow d (up place) rest
      else follow d (place ++ [step]) rest

/-- The place one starts from. -/
def start (root : String) : List String := if root.isEmpty then [] else [root]

/-- The place a text names.  Empty and staying steps count as steps. -/
def find (d : Directory) (name : String) : Except (Fault R) (List String) :=
  if name.isEmpty then .error .missingFile
  else
    d.follow (start (Location.rootOf name.toList))
      ((Location.pieces name.toList).map String.ofList)

/-- The place of a location. -/
def findLocation (d : Directory) (l : Location) : Except (Fault R) (List String) :=
  d.follow (start l.root) l.parts

/-- The content of a file. -/
def read (d : Directory) (name : String) : Except (Fault R) ByteArray := do
  let place ← d.find name
  match d.at? place with
  | none => .error .missingFile
  | some .folder => .error .isADirectory
  | some (.file content) => return content

/-- Puts an entry at a place. -/
def put (d : Directory) (place : List String) (e : Entry) : Directory :=
  ⟨(d.entries.filter fun f => f.1 ≠ place) ++ [(place, e)]⟩

/-- Replaces or creates a file. -/
def write (d : Directory) (l : Location) (content : ByteArray) : Except (Fault R) Directory := do
  let place ← d.findLocation l
  match d.at? place with
  | some .folder => .error .isADirectory
  | _ => return d.put place (.file content)

/-- Creates the folder at a location.  A folder that is there already is fine. -/
def createFolder (d : Directory) (l : Location) : Except (Fault R) Directory := do
  let place ← d.findLocation l
  match d.at? place with
  | some .folder => return d
  | some (.file _) => .error .fileExists
  | none => return d.put place .folder

/-- Creates a folder whose names are given from the last to the first.  If something is missing
on the way, the folders above it are created first. -/
def createFoldersUp (d : Directory) (root : String) : List String → Except (Fault R) Directory
  | [] => d.createFolder ⟨root, []⟩
  | name :: above =>
    let l : Location := ⟨root, (name :: above).reverse⟩
    match (d.createFolder l : Except (Fault R) Directory) with
    | .error .missingFile => do
      let d ← createFoldersUp d root above
      d.createFolder l
    | result => result

/-- Creates the folder at a location and, where they are missing, those above it. -/
def createFolders (d : Directory) (l : Location) : Except (Fault R) Directory :=
  d.createFoldersUp l.root l.parts.reverse

/-- The files below the working directory, by name. -/
def files (d : Directory) : List (String × ByteArray) :=
  d.entries.filterMap fun
    | (place, .file content) =>
      if isAbove (place.take 1) then none else some ("/".intercalate place, content)
    | (_, .folder) => none

end Directory

end FeynmanTikz
