/-
The program.

A command works on files as values.  So the program first reads what stands at every place that
the paths of the command lead through, then runs the command, and last writes the files that
the command has changed.
-/
import ConversionClosure.CommandLine

namespace ConversionClosure.Program

/-- The places on the way from a place along some components, both ends included. -/
def way : Place → List String → List Place
  | place, [] => [place]
  | place, part :: parts =>
    place :: way (if part = ".." then place.dropLast else place ++ [part]) parts

/-- The paths that a command may look at. -/
def pathsOf (o : Options) : List Path :=
  o.paths ++ [Configuration.path o.root o.config] ++ o.output.toList ++ o.report.toList

/-- The places that a command may look at. -/
def placesOf (working : Place) (o : Options) : List Place :=
  (pathsOf o).flatMap fun p => way (if p.root = .relative then working else []) p.parts

/-- The files before anything is read: the working directory and those above it. -/
def emptyFiles (working : Place) : FileSystem where
  working
  nodes := (List.range working.length).map fun n => (working.take (n + 1), .directory)

/-- The text of a place. -/
def placeText (place : Place) : String := "/" ++ "/".intercalate place

/-- What stands at a place of a directory. -/
def readNode (place : Place) : IO (Option FileNode) := do
  try
    return some (.file (← IO.FS.readBinFile (placeText place)).toList)
  catch
    | .noFileOrDirectory .. | .permissionDenied .. => return none
    | _ => return some .directory

/-- The files with what stands at a place, unless it is known or is in no directory. -/
def readPlace (fs : FileSystem) (place : Place) : IO FileSystem := do
  if (fs.node? place).isNone && fs.node? place.dropLast == some .directory then
    match ← readNode place with
    | some node => return fs.put place node
    | none => return fs
  else return fs

/-- Writes the files that are not as they were before. -/
def writeChanges (before after : FileSystem) : IO Unit := do
  for (place, node) in after.nodes do
    match node with
    | .directory => pure ()
    | .file bytes =>
      if before.node? place != some node then
        IO.FS.writeBinFile (placeText place) ⟨bytes.toArray⟩

/-- How the program is called. -/
def usage : String :=
  "usage: (synth | graph) [options] PATH..."

/-- The code that the program ends with, once the ending has been reported. -/
def report : Ending → IO UInt32
  | .exit code => return code.toUInt32
  | .refused => do
    IO.eprintln usage
    return 2
  | .failed fault => do
    IO.eprintln fault.message
    return 1

/-- Runs the command in the arguments. -/
def run (args : List String) : IO UInt32 := do
  let working := (Path.ofText (← IO.currentDir).toString).parts
  let places := match Arguments.read args with
    | some (_, o) => placesOf working o
    | none => []
  let fs ← places.foldlM readPlace (emptyFiles working)
  let outcome := runCommandLine fs args
  writeChanges fs outcome.files
  IO.print outcome.out
  IO.eprint outcome.err
  report outcome.ending

end ConversionClosure.Program

/-- The program. -/
def main (args : List String) : IO UInt32 := ConversionClosure.Program.run args
