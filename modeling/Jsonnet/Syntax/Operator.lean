/-!
# Operators

The binary and unary operators of the core language and the visibility marks of
object fields.
-/

namespace Jsonnet

/-- The binary operators, in the order of their binding strength. -/
inductive BinaryOp where
  | mul | div | mod
  | add | sub
  | shiftLeft | shiftRight
  | less | lessEq | greater | greaterEq
  | equal | notEqual
  | bitAnd | bitXor | bitOr
  | and | or
  deriving DecidableEq, Repr, Inhabited

namespace BinaryOp

/-- All binary operators. -/
def all : List BinaryOp :=
  [.mul, .div, .mod, .add, .sub, .shiftLeft, .shiftRight, .less, .lessEq, .greater, .greaterEq,
    .equal, .notEqual, .bitAnd, .bitXor, .bitOr, .and, .or]

/-- The symbol that is written for the operator. -/
def symbol : BinaryOp → String
  | .mul => "*"
  | .div => "/"
  | .mod => "%"
  | .add => "+"
  | .sub => "-"
  | .shiftLeft => "<<"
  | .shiftRight => ">>"
  | .less => "<"
  | .lessEq => "<="
  | .greater => ">"
  | .greaterEq => ">="
  | .equal => "=="
  | .notEqual => "!="
  | .bitAnd => "&"
  | .bitXor => "^"
  | .bitOr => "|"
  | .and => "&&"
  | .or => "||"

/-- The operator that a symbol is written for. -/
def ofSymbol? (symbol : String) : Option BinaryOp :=
  all.find? (·.symbol == symbol)

/-- The word for the operator. -/
def describe : BinaryOp → String
  | .mul => "Mul"
  | .div => "Div"
  | .mod => "Mod"
  | .add => "Add"
  | .sub => "Sub"
  | .shiftLeft => "Shl"
  | .shiftRight => "Shr"
  | .less => "Lt"
  | .lessEq => "LtEq"
  | .greater => "Gt"
  | .greaterEq => "GtEq"
  | .equal => "Eq"
  | .notEqual => "NotEq"
  | .bitAnd => "BitAnd"
  | .bitXor => "BitXor"
  | .bitOr => "BitOr"
  | .and => "And"
  | .or => "Or"

/-- Whether the right operand may stay unevaluated. -/
def isShortCircuit : BinaryOp → Bool
  | .and | .or => true
  | _ => false

end BinaryOp

/-- The unary operators. -/
inductive UnaryOp where
  | not | bitNot | plus | neg
  deriving DecidableEq, Repr, Inhabited

namespace UnaryOp

/-- All unary operators. -/
def all : List UnaryOp := [.not, .bitNot, .plus, .neg]

/-- The symbol that is written for the operator. -/
def symbol : UnaryOp → String
  | .not => "!"
  | .bitNot => "~"
  | .plus => "+"
  | .neg => "-"

/-- The operator that a symbol is written for. -/
def ofSymbol? (symbol : String) : Option UnaryOp :=
  all.find? (·.symbol == symbol)

/-- The word for the operator. -/
def describe : UnaryOp → String
  | .not => "Not"
  | .bitNot => "BitNot"
  | .plus => "Plus"
  | .neg => "Neg"

end UnaryOp

/-- How a field definition decides whether the field is written out. -/
inductive Visibility where
  /-- The mark `::`: the field is never written out. -/
  | hidden
  /-- The mark `:`: the field keeps what the objects to its left decided. -/
  | inherit
  /-- The mark `:::`: the field is always written out. -/
  | visible
  deriving DecidableEq, Repr

namespace Visibility

/-- A field written with a plain colon inherits its visibility. -/
instance : Inhabited Visibility := ⟨.inherit⟩

/-- The mark that is written for the visibility. -/
def mark : Visibility → String
  | .hidden => "::"
  | .inherit => ":"
  | .visible => ":::"

/-- The visibility that a mark is written for. -/
def ofMark? : String → Option Visibility
  | "::" => some .hidden
  | ":" => some .inherit
  | ":::" => some .visible
  | _ => none

/-- The word for the visibility. -/
def describe : Visibility → String
  | .hidden => "Hidden"
  | .inherit => "Inherit"
  | .visible => "Visible"

/-- The visibility of a field after a definition further right: a definition that
does not inherit decides. -/
def refine (left right : Visibility) : Visibility :=
  match right with
  | .inherit => left
  | decided => decided

end Visibility

end Jsonnet
