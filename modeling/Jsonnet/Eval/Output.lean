import Jsonnet.Eval.Field

/-!
# Output

Writing a value out computes everything that can be reached from it: the elements of
arrays in their order and the fields of objects that are not hidden, ordered by their
names. Objects are checked before their fields are read.
-/

namespace Jsonnet

open Jsonnet.Action

/-- The documents of deferred values, in their order; `done` are those computed so far,
last first. -/
def elementDocuments (done : List Document) : List Deferred → Action (List Document)
  | [] => return done.reverse
  | element :: rest => do
    let value ← element.force
    let document ← value.document
    elementDocuments (document :: done) rest

/-- The documents of some fields of an object, in their order, under their names; `done`
are those computed so far, last first. -/
def fieldDocuments (object : Object) (done : List (String × Document)) :
    List Name → Action (List (String × Document))
  | [] => return done.reverse
  | name :: rest => do
    let key ← textOf name
    let value ← object.read 0 name .unknown
    let document ← value.document
    fieldDocuments object ((key, document) :: done) rest

/-- The names of an object's fields in the order in which they are written out. -/
def sortedFields (object : Object) (includeHidden : Bool) : Action (List Name) :=
  take (.sort (object.fieldNames includeHidden))

/-- Everything that a value is written out with. -/
def computeDocument : Value → Action Document
  | .null => return .null
  | .bool b => return .bool b
  | .number x => return .number x
  | .string s => return .string s
  | .function _ => raiseHere .functionInOutput
  | .array elements => return .array (← elementDocuments [] elements.toList)
  | .object object => do
    object.check
    return .object (← fieldDocuments object [] (← sortedFields object false))

/-- The text of a value in a layout. -/
def Value.manifest (layout : Layout) (value : Value) : Action String :=
  return (← value.document).render layout

/-- The text of a value inside a string: a string as it is, anything else on one
line. -/
def Value.displayed : Value → Action String
  | .string s => return s
  | other => other.manifest .singleLine

end Jsonnet
