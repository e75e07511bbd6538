import Jsonnet.Import.Path

/-!
# File trees

A file tree is what imports are read from: directories with named entries, and files,
each with its text if its bytes are one.
-/

namespace Jsonnet

/-- A file or a directory. -/
inductive FileTree where
  | file (text : Option String)
  | directory (entries : List (String × FileTree))
  deriving Inhabited

namespace FileTree

/-- The entries with one of them put in the place of the old one, or at the end. -/
def setEntry (name : String) (node : FileTree) :
    List (String × FileTree) → List (String × FileTree)
  | [] => [(name, node)]
  | (n, old) :: rest =>
    if n = name then (name, node) :: rest else (n, old) :: setEntry name node rest

/-- Puts a node under some components, making the directories above it. A directory that
is there already is kept. -/
def insert (node : FileTree) : List String → FileTree → FileTree
  | [], old =>
    match node, old with
    | .directory [], .directory entries => .directory entries
    | node, _ => node
  | name :: rest, tree =>
    let entries := match tree with
      | .directory entries => entries
      | .file _ => []
    let old := (entries.lookup name).getD (.directory [])
    .directory (setEntry name (insert node rest old) entries)

/-- The tree with files under relative paths: a file with its text, or without one, or a
directory. -/
def ofFiles (files : List (String × FileTree)) : FileTree :=
  files.foldl
    (fun tree (path, node) =>
      let names := (Path.components path.toList).filter (!Path.isIdle ·)
      insert node (names.map String.ofList) tree)
    (.directory [])

end FileTree

end Jsonnet
