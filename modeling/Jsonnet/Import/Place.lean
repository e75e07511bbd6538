import Jsonnet.Import.FileTree
import Jsonnet.Text.Bytes

/-!
# Places

A place is a node of a file tree together with the directories above it. A path is read
from a place, the working directory: a relative path is followed from there, and an
absolute one from the root.
-/

namespace Jsonnet

/-- Why a path cannot be read. -/
inductive ReadError where
  /-- There is nothing under the path. -/
  | missing
  | isDirectory
  /-- A component before the last one is a file. -/
  | notDirectory
  /-- The path or one of its components is longer than a path can be. -/
  | tooLong
  /-- The bytes of the file are not a text. -/
  | notText
  /-- The path holds a character that no path can hold. -/
  | nul
  deriving DecidableEq, Repr, Inhabited

/-- The words for an error. -/
def ReadError.message : ReadError → String
  | .missing => "No such file or directory (os error 2)"
  | .isDirectory => "Is a directory (os error 21)"
  | .notDirectory => "Not a directory (os error 20)"
  | .tooLong => "File name too long (os error 36)"
  | .notText => "stream did not contain valid UTF-8"
  | .nul => "file name contained an unexpected NUL byte"

/-- A node of a file tree, with its ancestors from its parent up to the root. -/
structure Place where
  node : FileTree
  ancestors : List FileTree
  deriving Inhabited

namespace Place

/-- The greatest number of bytes of a path. -/
def maxPathLength : Nat := 4095

/-- The greatest number of bytes of a component. -/
def maxNameLength : Nat := 255

/-- The directory above a place; above the root is the root itself. -/
def parent (place : Place) : Place :=
  match place.ancestors with
  | [] => place
  | node :: ancestors => ⟨node, ancestors⟩

/-- The root of the tree that a place belongs to. -/
def root (place : Place) : Place := ⟨place.ancestors.getLast?.getD place.node, []⟩

/-- The place to which a component leads. A file has nothing below it, not even a dot. -/
def step (place : Place) (component : List Char) : Except ReadError Place :=
  match place.node with
  | .file _ => .error .notDirectory
  | .directory entries =>
    if Path.isIdle component then .ok place
    else if component = ['.', '.'] then .ok place.parent
    else if maxNameLength < Text.byteCount component then .error .tooLong
    else
      match entries.lookup (String.ofList component) with
      | none => .error .missing
      | some child => .ok ⟨child, place.node :: place.ancestors⟩

/-- The place to which components lead. -/
def walk (place : Place) : List (List Char) → Except ReadError Place
  | [] => .ok place
  | component :: rest =>
    match place.step component with
    | .error e => .error e
    | .ok next => next.walk rest

/-- The text of the file under a path, seen from a working directory. -/
def read (place : Place) (path : String) : Except ReadError String :=
  if path.toList.contains '\x00' then .error .nul
  else if maxPathLength < Text.byteCount path.toList then .error .tooLong
  else if path == "" then .error .missing
  else
    let start := if Path.isAbsolute path then place.root else place
    match start.walk (Path.components path.toList) with
    | .error e => .error e
    | .ok ⟨.directory _, _⟩ => .error .isDirectory
    | .ok ⟨.file none, _⟩ => .error .notText
    | .ok ⟨.file (some text), _⟩ => .ok text

/-- A tree as the working directory, below a directory for temporary files. Outside the
tree there are only the usual empty directories and the null device. -/
def temporary (tree : FileTree) : Place where
  node := tree
  ancestors :=
    let empty := FileTree.directory []
    let devices := FileTree.directory [("null", .file (some ""))]
    [empty, .directory [("dev", devices), ("etc", empty), ("home", empty),
      ("tmp", empty), ("usr", empty), ("var", empty)]]

end Place

end Jsonnet
