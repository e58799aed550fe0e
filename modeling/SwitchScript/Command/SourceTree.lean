import SwitchScript.Text.Quoted

/-!
# Source trees

Scripts are read from a tree of files and directories, by a path from the
working directory or from the root. Looking a path up fails in one of a few
ways, and the first thing wrong on the way decides which. A tree can be held in
memory, so what the command answers is a function of its inputs.
-/

namespace SwitchScript.Command

/-- Why the system cannot open a file: its error number and the text for it. -/
structure SystemFault where
  number : Nat
  text : String
  deriving DecidableEq, Repr

namespace SystemFault

def noEntry : SystemFault := ⟨2, "No such file or directory"⟩

def permissionDenied : SystemFault := ⟨13, "Permission denied"⟩

def notDirectory : SystemFault := ⟨20, "Not a directory"⟩

def isDirectory : SystemFault := ⟨21, "Is a directory"⟩

def nameTooLong : SystemFault := ⟨36, "File name too long"⟩

def message (f : SystemFault) (path : String) : String :=
  "[Errno " ++ toString f.number ++ "] " ++ f.text ++ ": " ++ Text.quote path

end SystemFault

abbrev Bytes := List UInt8

inductive Node
  | file (content : Bytes)
  | directory
  deriving DecidableEq, Repr

/-- Where names start to lead somewhere. -/
inductive Base
  | root
  /-- The directory so many levels above the working directory. -/
  | above (levels : Nat)
  deriving DecidableEq, Repr

/-- A place in the file system: where to start, and the names that lead down
from there. -/
structure Place where
  base : Base
  names : List String
  deriving DecidableEq, Repr

namespace Place

def here : Place := ⟨.above 0, []⟩

/-- The directory that holds a place. The root holds itself. -/
def parent : Place → Place
  | ⟨.root, []⟩ => ⟨.root, []⟩
  | ⟨.above levels, []⟩ => ⟨.above (levels + 1), []⟩
  | ⟨base, names⟩ => ⟨base, names.dropLast⟩

/-- The place that a name stands for in a directory. -/
def go (p : Place) (name : String) : Place :=
  if name = "" ∨ name = "." then p
  else if name = ".." then p.parent
  else ⟨p.base, p.names ++ [name]⟩

/-- Where a path starts, and the names along it. -/
def start (path : String) : Place × List String :=
  match path.splitOn "/" with
  | "" :: rest => (⟨.root, []⟩, rest)
  | names => (here, names)

end Place

/-- Files and directories by their places. The latest entry for a place
counts. The root, the working directory and what is above it are there without
an entry. -/
structure SourceTree where
  entries : List (Place × Node)
  deriving Repr

namespace SourceTree

/-- The tree in whose working directory there is nothing. -/
def empty : SourceTree := ⟨[]⟩

def find? (t : SourceTree) (place : Place) : Option Node :=
  if place.names.isEmpty then some .directory else t.entries.lookup place

/-- The tree with a file or directory at a place. A directory changes nothing
where something stands already. -/
def put (t : SourceTree) (place : Place) (node : Node) : SourceTree :=
  if node = .directory ∧ (t.find? place).isSome then t else ⟨(place, node) :: t.entries⟩

@[simp] theorem find?_here (t : SourceTree) : t.find? .here = some .directory := rfl

theorem find?_put_file (t : SourceTree) {place : Place} (content : Bytes)
    (h : place.names ≠ []) :
    (t.put place (.file content)).find? place = some (.file content) := by
  simp [put, find?, h]

/-- The tree with a file or directory at the end of names, and directories
wherever the names lead through. -/
def putAlong (t : SourceTree) (node : Node) : Place → List String → SourceTree
  | place, [] => t.put place node
  | place, name :: rest => (t.put place .directory).putAlong node (place.go name) rest

/-- The tree with a file or directory under a path. -/
def insert (t : SourceTree) (path : String) (node : Node) : SourceTree :=
  let (place, names) := Place.start path
  t.putAlong node place names

/-! ## Looking up -/

/-- The greatest number of bytes in a name. -/
def maxName : Nat := 255

/-- The least number of bytes that a path may not have. -/
def pathLimit : Nat := 4096

/-- Goes from a directory to what has a name in it. -/
def enter (t : SourceTree) (place : Place) (name : String) : Except SystemFault Place :=
  if maxName < name.utf8ByteSize then .error .nameTooLong
  else if (t.find? (place.go name)).isNone then .error .noEntry
  else .ok (place.go name)

/-- Walks along the names of a path. Every name is looked up in a directory. -/
def walk (t : SourceTree) : Place → List String → Except SystemFault Place
  | place, [] => .ok place
  | place, name :: rest =>
    if t.find? place = some .directory then
      match t.enter place name with
      | .error fault => .error fault
      | .ok next => t.walk next rest
    else .error .notDirectory

/-- The content of the file under a path. -/
def read (t : SourceTree) (path : String) : Except SystemFault Bytes :=
  if path = "" then .error .noEntry
  else if pathLimit ≤ path.utf8ByteSize then .error .nameTooLong
  else
    let (place, names) := Place.start path
    match t.walk place names with
    | .error fault => .error fault
    | .ok place =>
      match t.find? place with
      | some (.file content) => .ok content
      | some .directory => .error .isDirectory
      | none => .error .noEntry

end SourceTree

end SwitchScript.Command
