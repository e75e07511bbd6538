import Jsonnet.Json.Document
import Jsonnet.Number.BitPattern
import Jsonnet.Syntax.Term

/-!
# Terms written as documents

A term can be written as a JSON document. Null, truth values, numbers and strings stand
for themselves; every other term is an array that begins with a word for its kind and
goes on with its parts. A number that has no decimal text, or whose bits matter, is
written with its bit pattern.
-/

namespace Jsonnet

namespace Document

/-- The text that a document is. -/
def text? : Document → Option String
  | .string s => some s
  | _ => none

/-- The number that a document stands for: a number, or a string with a bit pattern. -/
def number? : Document → Option Number
  | .number x => some x
  | .string s => ofBitPattern? s
  | _ => none

/-- The position that a document is. -/
def position? : Document → Option UInt32
  | .number x => some x.word.toNat.toUInt32
  | _ => none

end Document

namespace Term

mutual

/-- The term that a document is written for. -/
def ofDocument? : Document → Option Term
  | .null => some .null
  | .bool b => some (.bool b)
  | .number x => some (.number x)
  | .string s => some (.string s)
  | .object _ => none
  | .array parts =>
    match parts with
    | [.string "n", x] => x.number?.map .number
    | [.string "var", .string name] => some (.var name)
    | [.string "local", .array binds, body] => do
      return .locals (← bindsOf? binds) (← ofDocument? body)
    | [.string "fn", .array params, body] => do
      return .function (← params.mapM Document.text?) (← ofDocument? body)
    | [.string "call", target, .array arguments] => do
      return .apply (← ofDocument? target) (← listOf? arguments)
    | [.string "arr", .array elements] => do return .array (← listOf? elements)
    | [.string "obj", .array asserts, .array fields] => do
      return .object (← listOf? asserts) (← fieldsOf? fields)
    | [.string "bin", .string op, left, right] => do
      return .binary (← BinaryOp.ofSymbol? op) (← ofDocument? left) (← ofDocument? right)
    | [.string "un", .string op, operand] => do
      return .unary (← UnaryOp.ofSymbol? op) (← ofDocument? operand)
    | [.string "if", condition, whenTrue, whenFalse] => do
      return .conditional (← ofDocument? condition) (← ofDocument? whenTrue)
        (← ofDocument? whenFalse)
    | [.string "idx", target, position] => do
      return .index (← ofDocument? target) (← ofDocument? position)
    | [.string "super", position] => do return .superIndex (← ofDocument? position)
    | [.string "self"] => some .selfRef
    | [.string "error", message] => do return .error (← ofDocument? message)
    | [.string "import", .string path] => some (.importCode path)
    | [.string "importstr", .string path] => some (.importText path)
    | [.string "at", start, stop, body] => do
      return .spanned ⟨← start.position?, ← stop.position?⟩ (← ofDocument? body)
    | _ => none

/-- The terms that documents are written for. -/
def listOf? : List Document → Option (List Term)
  | [] => some []
  | document :: rest => do return (← ofDocument? document) :: (← listOf? rest)

/-- The bindings that documents are written for: each a name and a term. -/
def bindsOf? : List Document → Option (List (String × Term))
  | [] => some []
  | .array [.string name, body] :: rest => do
    return (name, ← ofDocument? body) :: (← bindsOf? rest)
  | _ :: _ => none

/-- The fields that documents are written for: each a term for the name, a mark and a
term for the body. -/
def fieldsOf? : List Document → Option (List (Term × FieldMark × Term))
  | [] => some []
  | .array [name, .string mark, body] :: rest => do
    return (← ofDocument? name, ← FieldMark.ofText? mark, ← ofDocument? body)
      :: (← fieldsOf? rest)
  | _ :: _ => none

end

end Term

end Jsonnet
