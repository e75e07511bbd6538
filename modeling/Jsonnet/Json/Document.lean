import Jsonnet.Number.Decimal
import Jsonnet.Text.Quoted

/-!
# JSON documents

A document is a finished JSON value. The same document has two layouts: over several
lines, indented by three spaces a level, or on one line. An empty array is written
`[ ]` and an empty object with the same blank between its braces.
-/

namespace Jsonnet

/-- A finished JSON value. The fields of an object stand in the order in which they are
written. -/
inductive Document where
  | null
  | bool (value : Bool)
  | number (value : Number)
  | string (value : String)
  | array (elements : List Document)
  | object (fields : List (String × Document))
  deriving Inhabited

/-- How a document is laid out. -/
inductive Layout where
  | multiLine
  | singleLine
  deriving DecidableEq, Repr, Inhabited

namespace Layout

/-- A line break and the indentation of a level, before `rest`. -/
def newline (level : Nat) (rest : List Char) : List Char :=
  '\n' :: (List.replicate (3 * level) ' ' ++ rest)

/-- What stands between a bracket and the first entry, or the last entry and the
closing bracket, of a container; `level` is that of what follows. -/
def edge (layout : Layout) (level : Nat) (rest : List Char) : List Char :=
  match layout with
  | .multiLine => newline level rest
  | .singleLine => rest

/-- What stands between two entries at a level. -/
def separator (layout : Layout) (level : Nat) (rest : List Char) : List Char :=
  match layout with
  | .multiLine => ',' :: newline level rest
  | .singleLine => ',' :: ' ' :: rest

end Layout

namespace Document

mutual

/-- The text of a document at a level, followed by `rest`. -/
def write (layout : Layout) (level : Nat) (rest : List Char) : Document → List Char
  | .null => 'n' :: 'u' :: 'l' :: 'l' :: rest
  | .bool true => 't' :: 'r' :: 'u' :: 'e' :: rest
  | .bool false => 'f' :: 'a' :: 'l' :: 's' :: 'e' :: rest
  | .number value => (numberText value).toList ++ rest
  | .string value => (Text.quoted value).toList ++ rest
  | .array [] => '[' :: ' ' :: ']' :: rest
  | .array (first :: others) =>
    '[' :: layout.edge (level + 1)
      (write layout (level + 1)
        (writeElements layout level (layout.edge level (']' :: rest)) others) first)
  | .object [] => '\x7b' :: ' ' :: '\x7d' :: rest
  | .object ((key, first) :: others) =>
    '\x7b' :: layout.edge (level + 1)
      ((Text.quoted key).toList ++ ':' :: ' ' ::
        write layout (level + 1)
          (writeFields layout level (layout.edge level ('\x7d' :: rest)) others) first)

/-- The text of further elements of an array at a level, each after a separator. -/
def writeElements (layout : Layout) (level : Nat) (rest : List Char) :
    List Document → List Char
  | [] => rest
  | element :: others =>
    layout.separator (level + 1)
      (write layout (level + 1) (writeElements layout level rest others) element)

/-- The text of further fields of an object at a level, each after a separator. -/
def writeFields (layout : Layout) (level : Nat) (rest : List Char) :
    List (String × Document) → List Char
  | [] => rest
  | (key, value) :: others =>
    layout.separator (level + 1)
      ((Text.quoted key).toList ++ ':' :: ' ' ::
        write layout (level + 1) (writeFields layout level rest others) value)

end

/-- The text of a document. -/
def render (layout : Layout) (document : Document) : String :=
  String.ofList (document.write layout 0 [])

/-- Puts a field into fields that are ordered by their keys; a field that is there
already is replaced. -/
def insertField (key : String) (value : Document) :
    List (String × Document) → List (String × Document)
  | [] => [(key, value)]
  | (k, v) :: rest =>
    if key < k then (key, value) :: (k, v) :: rest
    else if key = k then (key, value) :: rest
    else (k, v) :: insertField key value rest

/-- The object with given fields: ordered by key, and of fields with one key the last. -/
def ofFields (fields : List (String × Document)) : Document :=
  .object (fields.foldl (fun sorted (key, value) => insertField key value sorted) [])

end Document

end Jsonnet
