/-
Files and directories.

A file system says what stands at each place, a place being the components on the way from
the root.  Paths are followed from the working directory one component at a time; every
component that something follows has to be a directory.
-/
import ConversionClosure.File.Path
import ConversionClosure.File.Utf8

namespace ConversionClosure

/-- What stands at a place. -/
inductive FileNode
  | file (bytes : List UInt8)
  | directory
deriving DecidableEq, Repr

/-- Why a path cannot be followed, read or written. -/
inductive FileCause
  | missing
  | notDirectory
  | isDirectory
deriving DecidableEq, Repr

namespace FileCause

/-- The number of the cause. -/
def number : FileCause → Nat
  | missing => 2
  | notDirectory => 20
  | isDirectory => 21

/-- The cause in words. -/
def message : FileCause → String
  | missing => "No such file or directory"
  | notDirectory => "Not a directory"
  | isDirectory => "Is a directory"

end FileCause

/-- A place: the components on the way from the root. -/
abbrev Place := List String

/-- The files and directories, and the working directory. -/
structure FileSystem where
  working : Place := []
  nodes : List (Place × FileNode) := []
deriving DecidableEq, Repr

namespace FileSystem

/-- What stands at a place.  The root is a directory. -/
def node? (fs : FileSystem) (place : Place) : Option FileNode :=
  if place = [] then some .directory else fs.nodes.lookup place

/-- The file system with something put at a place. -/
def put (fs : FileSystem) (place : Place) (node : FileNode) : FileSystem :=
  { fs with nodes := (place, node) :: fs.nodes.filter fun entry => entry.1 != place }

theorem node?_put_self {place : Place} (h : place ≠ []) (fs : FileSystem) (node : FileNode) :
    (fs.put place node).node? place = some node := by
  simp [node?, put, h]

theorem node?_put_of_ne {place other : Place} (h : other ≠ place) (fs : FileSystem)
    (node : FileNode) : (fs.put place node).node? other = fs.node? other := by
  have hb : (other == place) = false := beq_eq_false_iff_ne.2 h
  simp only [node?, put, List.lookup_cons, hb]
  congr 1
  induction fs.nodes with
  | nil => rfl
  | cons entry nodes ih =>
    obtain ⟨p, n⟩ := entry
    by_cases hp : p = place
    · subst hp; simpa [List.lookup_cons, hb] using ih
    · rw [List.filter_cons_of_pos (by simpa using hp), List.lookup_cons, List.lookup_cons, ih]

/-- The place that components lead to from a place that has to be a directory. -/
def follow (fs : FileSystem) : Place → List String → Except FileCause Place
  | place, [] => .ok place
  | place, part :: parts =>
    match fs.node? place with
    | none => .error .missing
    | some (.file _) => .error .notDirectory
    | some .directory => follow fs (if part = ".." then place.dropLast else place ++ [part]) parts

/-- The place of a path. -/
def locate (fs : FileSystem) (p : Path) : Except FileCause Place :=
  follow fs (if p.root = .relative then fs.working else []) p.parts

/-- What stands at a path. -/
def at? (fs : FileSystem) (p : Path) : Except FileCause FileNode := do
  match fs.node? (← fs.locate p) with
  | some node => return node
  | none => throw .missing

/-- There is a file at the path. -/
def isFile (fs : FileSystem) (p : Path) : Bool :=
  match fs.at? p with
  | .ok (.file _) => true
  | _ => false

/-- There is something at the path. -/
def pathExists (fs : FileSystem) (p : Path) : Bool := (fs.at? p).isOk

/-- The bytes of the file at a path. -/
def read (fs : FileSystem) (p : Path) : Except FileCause (List UInt8) := do
  match ← fs.at? p with
  | .file bytes => return bytes
  | .directory => throw .isDirectory

/-- The file system with a text written to a path, whose directory has to be there. -/
def write (fs : FileSystem) (p : Path) (text : String) : Except FileCause FileSystem := do
  let place ← fs.locate p
  match fs.node? place, fs.node? place.dropLast with
  | some .directory, _ => throw .isDirectory
  | _, some .directory => return fs.put place (.file (Utf8.encode text))
  | _, some (.file _) => throw .notDirectory
  | _, none => throw .missing

end FileSystem

end ConversionClosure
