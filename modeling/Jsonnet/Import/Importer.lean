import Std.Data.HashMap
import Jsonnet.Import.Place
import Jsonnet.Text.Escaped

/-!
# Importers

An importer turns the directory of the importing file and the path that is imported into
a text. One importer searches a file tree, first beside the importing file and then in
the library directories, the last of them first; another serves texts by their path
alone. Answers are kept, failures included, so every question is asked once.
-/

namespace Jsonnet

/-- An imported text. The path it was found at is the file name of its code, so its own
imports are resolved from there. -/
structure ImportedFile where
  content : String
  foundAt : String
  deriving DecidableEq, Repr, Inhabited

/-- Why an import gives no text. -/
inductive ImportError where
  | notFound (path : String)
  | notAvailable (path : String)
  | unreadable (path message : String)
  deriving DecidableEq, Repr, Inhabited

/-- The message for an error. -/
def ImportError.message : ImportError → String
  | .notFound path =>
    "Couldn't open import " ++ Text.escaped path ++
      ": No match locally or in the Jsonnet library paths."
  | .notAvailable path => "Import not available " ++ path
  | .unreadable path message =>
    "Couldn't read import " ++ Text.escaped path ++ ": " ++ message

/-- A source of imported texts. -/
abbrev Importer := (directory path : String) → Except ImportError ImportedFile

namespace Importer

/-- Serves texts by their path, from wherever they are imported. -/
def memory (files : List (String × String)) : Importer := fun _ path =>
  match files.lookup path with
  | some content => .ok ⟨content, path⟩
  | none => .error (.notAvailable path)

/-- Reads a path below a directory. Where there is no file the search may go on. -/
def candidate (place : Place) (directory path : String) :
    Except ImportError (Option ImportedFile) :=
  let full := Path.join directory path
  match place.read full with
  | .ok content => .ok (some ⟨content, full⟩)
  | .error .missing | .error .isDirectory => .ok none
  | .error e => .error (.unreadable path e.message)

/-- Reads the path below the first of some directories that holds it. -/
def firstOf (place : Place) (path : String) :
    List String → Except ImportError ImportedFile
  | [] => .error (.notFound path)
  | directory :: rest =>
    match candidate place directory path with
    | .error e => .error e
    | .ok (some file) => .ok file
    | .ok none => firstOf place path rest

/-- Searches the importing directory and then the library directories, the last of them
first, all of them seen from a place of a file tree. -/
def search (place : Place) (libraries : List String) : Importer := fun directory path =>
  firstOf place path (directory :: libraries.reverse)

end Importer

/-- What is known about an import: the answer of the importer and, once it was compiled,
the code. -/
structure ImportEntry (α : Type) where
  answer : Except ImportError ImportedFile
  code : Option α

/-- The answers that importers have given, by importing directory and path. -/
structure ImportCache (α : Type) where
  entries : Std.HashMap (String × String) (ImportEntry α)
  deriving Inhabited

namespace ImportCache

variable {α : Type}

/-- The cache without answers. -/
def empty : ImportCache α := ⟨∅⟩

/-- The answer to an import, which the importer is asked for if it is not known. -/
def resolve (cache : ImportCache α) (importer : Importer) (directory path : String) :
    Except ImportError ImportedFile × ImportCache α :=
  match cache.entries[(directory, path)]? with
  | some entry => (entry.answer, cache)
  | none =>
    let answer := importer directory path
    (answer, ⟨cache.entries.insert (directory, path) ⟨answer, none⟩⟩)

/-- The compiled code of an import. -/
def code? (cache : ImportCache α) (directory path : String) : Option α :=
  cache.entries[(directory, path)]?.bind ImportEntry.code

/-- Keeps the compiled code of an import that has an answer. -/
def setCode (cache : ImportCache α) (directory path : String) (code : α) : ImportCache α :=
  match cache.entries[(directory, path)]? with
  | some entry =>
    ⟨cache.entries.insert (directory, path) { entry with code := some code }⟩
  | none => cache

/-- The number of answers. -/
def size (cache : ImportCache α) : Nat := cache.entries.size

/-- Whether there is no answer. -/
def isEmpty (cache : ImportCache α) : Bool := cache.entries.isEmpty

/-- The text that shows the size of a cache. -/
def describe (cache : ImportCache α) : String := s!"ImportCache({cache.size} entries)"

end ImportCache

end Jsonnet
