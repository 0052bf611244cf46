/-
The program: one run of the command line over real files.

Everything is decided by `CommandLine.run`; here the named document is read, and what the run
leaves behind is printed and written.
-/
import FeynmanTikz.CommandLine
import FeynmanTikz.Number.Double

namespace FeynmanTikz

/-- A directory that holds just one file. -/
def Directory.single (name : String) (content : ByteArray) : Except (Fault Float) Directory := do
  let l := Location.ofText name
  let d ← Directory.createFolders {} l.parent
  d.write l content

/-- The directory of the document that the arguments name, as far as it can be read. -/
def readDirectory (args : List String) : IO Directory := do
  match (Options.ofArguments args).bind (·.path) with
  | none => return {}
  | some name =>
    try
      let content ← IO.FS.readBinFile name
      return (Directory.single name content).toOption.getD {}
    catch _ => return {}

/-- Writes a file, with the folders above it. -/
def writeFile (l : Location) (text : String) : IO Unit := do
  if !l.parent.parts.isEmpty then IO.FS.createDirAll l.parent.text
  IO.FS.writeFile l.text text

/-- What is said about arguments that make no sense. -/
def usage : String := "usage: path [--log-level LEVEL] [--output-path PATH] [--dump-ir]"

/-- Shows the outcome of a run; the result is the exit code. -/
def showOutcome (outcome : CommandLine.Outcome Float) : IO UInt32 := do
  IO.eprint outcome.log
  match outcome.result with
  | .ok report =>
    if let some (l, text) := report.written then writeFile l text
    IO.print report.output
    return report.exit.toUInt32
  | .error fault =>
    IO.eprintln (fault.message?.getD "the document cannot be read or written")
    return 1

end FeynmanTikz

def main (args : List String) : IO UInt32 := do
  match FeynmanTikz.CommandLine.run args (← FeynmanTikz.readDirectory args) with
  | none =>
    IO.eprintln FeynmanTikz.usage
    return 2
  | some outcome => FeynmanTikz.showOutcome outcome
