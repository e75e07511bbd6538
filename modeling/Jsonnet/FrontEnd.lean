import Jsonnet.Error.Failure
import Jsonnet.Json.Reader
import Jsonnet.Syntax.Term

/-!
# Front ends

A front end compiles the text of a file. Any function of the right type will do; the
one given here knows the JSON part of the language, in which objects become object
literals with plain colons and everything else becomes literals.
-/

namespace Jsonnet

/-- What comes of compiling a text. -/
inductive Compiled where
  | program (code : Code)
  | rejected (error : StaticError)
  /-- The front end broke down. -/
  | broken (message : String)
  deriving Inhabited

/-- A compiler of a file name and the text under that name. It may intern new names. -/
abbrev FrontEnd := Interner → (file source : String) → Compiled × Interner

namespace Document

open Term (Storing building naming)

mutual

/-- Appends the expression of a document to an arena. The body of a field comes before
its name. -/
def store : Document → Storing NodeId
  | .null => building (Build.alloc .null .none)
  | .bool value => building (Build.alloc (.bool value) .none)
  | .number value => building (Build.alloc (.number value) .none)
  | .string value => do building (Build.alloc (.string (← naming value)) .none)
  | .array elements => do
    let elements ← storeElements elements
    building (Build.array elements .none)
  | .object fields => do
    let fields ← storeFields fields
    building (Build.object [] fields .none)

/-- Appends the elements of an array in their order. -/
def storeElements : List Document → Storing (List NodeId)
  | [] => return []
  | element :: rest => do
    let id ← store element
    return id :: (← storeElements rest)

/-- Appends the fields of an object in their order. -/
def storeFields : List (String × Document) → Storing (List FieldDef)
  | [] => return []
  | (key, value) :: rest => do
    let body ← store value
    let name ← naming key
    let field ← building (Build.field name .inherit body)
    return field :: (← storeFields rest)

end

end Document

namespace Json

/-- The error that a front end reports for a text that is no JSON. -/
def staticError (fileName : String) (file : Name) (source : String) (error : ReadError) :
    StaticError :=
  let bytes := source.toUTF8.toList
  let offset := bytes.length - error.left
  let line := lineAt bytes offset
  let column := columnAt bytes offset
  let start := byteOffset bytes line column
  let span := match Span.ofPositions start start with
    | .ok span => span
    | .error _ => .none
  { message := s!"{fileName}: {error.complaint.message} at line {line} column {column}"
    location := some ⟨file, span⟩ }

/-- The front end for JSON texts. -/
def frontEnd : FrontEnd := fun names fileName source =>
  let (file, names) := names.intern fileName
  match readDocument source with
  | .error error => (.rejected (staticError fileName file source error), names)
  | .ok document =>
    let (root, names, arena) := document.store.run (names, Arena.new file)
    (.program ⟨arena, root⟩, names)

end Json

end Jsonnet
