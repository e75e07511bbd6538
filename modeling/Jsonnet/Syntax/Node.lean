import Jsonnet.Name
import Jsonnet.Number.Basic
import Jsonnet.Syntax.Operator

/-!
# Nodes

The core language has nineteen kinds of expressions. An expression is a node of an
arena; it refers to its children by their numbers, and to a list of children by a
slice of one of the arena's tables.
-/

namespace Jsonnet

/-- The number of a node in its arena. -/
structure NodeId where
  index : Nat
  deriving DecidableEq, Repr, Inhabited

/-- The text that shows a node number. -/
def NodeId.describe (id : NodeId) : String := s!"ExprId({id.index})"

/-- A contiguous part of a table with entries of type `α`. -/
structure Slice (α : Type) where
  start : Nat
  size : Nat
  deriving DecidableEq, Repr, Inhabited

namespace Slice

variable {α : Type}

/-- The part without entries. -/
def empty : Slice α := ⟨0, 0⟩

/-- The entries of a table that the slice covers. -/
def read (slice : Slice α) (table : Array α) : List α :=
  (table.extract slice.start (slice.start + slice.size)).toList

/-- The text of a slice under a label. -/
def describe (slice : Slice α) (label : String) : String :=
  s!"{label}({slice.start}..{slice.start + slice.size})"

end Slice

/-- One binding of a `local` expression; every bound name is in scope in every
body. -/
structure Bind where
  name : Name
  body : NodeId
  deriving DecidableEq, Repr, Inhabited

/-- One field of an object literal. The name is an expression, and a field whose name
is null is left out; `f+: body` extends the field of the same name further left. -/
structure FieldDef where
  name : NodeId
  visibility : Visibility
  body : NodeId
  extendsSuper : Bool
  deriving DecidableEq, Repr, Inhabited

/-- The kinds of expressions. -/
inductive Node where
  | null
  | bool (value : Bool)
  | number (value : Number)
  | string (value : Name)
  | var (name : Name)
  | locals (binds : Slice Bind) (body : NodeId)
  | function (params : Slice Name) (body : NodeId)
  | apply (target : NodeId) (arguments : Slice NodeId)
  | array (elements : Slice NodeId)
  | object (asserts : Slice NodeId) (fields : Slice FieldDef)
  | binary (op : BinaryOp) (left right : NodeId)
  | unary (op : UnaryOp) (operand : NodeId)
  | conditional (condition whenTrue whenFalse : NodeId)
  | index (target position : NodeId)
  | superIndex (position : NodeId)
  | selfRef
  | error (message : NodeId)
  | importCode (path : Name)
  | importText (path : Name)
  deriving Inhabited

/-- The words for a kind of expression. -/
def Node.title : Node → String
  | .null => "null"
  | .bool _ => "boolean literal"
  | .number _ => "number literal"
  | .string _ => "string literal"
  | .var _ => "variable"
  | .locals .. => "local"
  | .function .. => "function"
  | .apply .. => "function call"
  | .array _ => "array"
  | .object .. => "object"
  | .binary .. => "binary operator"
  | .unary .. => "unary operator"
  | .conditional .. => "if"
  | .index .. => "index"
  | .superIndex _ => "super index"
  | .selfRef => "self"
  | .error _ => "error"
  | .importCode _ => "import"
  | .importText _ => "importstr"

end Jsonnet
