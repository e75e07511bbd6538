import Jsonnet.Syntax.Operator

/-!
# Builtins

The functions that programs do not define: one for every operator, and those of the
standard library.
-/

namespace Jsonnet

/-- The functions of the standard library. -/
inductive LibraryFunction where
  | length | type | toString | codepoint | char
  | makeArray | filter
  | floor | ceil | sqrt | pow | exp | log | modulo
  | primitiveEquals | equals
  | objectFieldsEx | objectHasEx
  | extVar
  deriving DecidableEq, Repr, Inhabited

namespace LibraryFunction

/-- The functions in the order in which the library lists them. -/
def all : List LibraryFunction :=
  [.length, .type, .toString, .codepoint, .char, .makeArray, .filter, .floor, .ceil, .sqrt,
    .pow, .exp, .log, .modulo, .primitiveEquals, .equals, .objectFieldsEx, .objectHasEx,
    .extVar]

/-- The name of a function, which is also its field of the library. -/
def name : LibraryFunction → String
  | .length => "length"
  | .type => "type"
  | .toString => "toString"
  | .codepoint => "codepoint"
  | .char => "char"
  | .makeArray => "makeArray"
  | .filter => "filter"
  | .floor => "floor"
  | .ceil => "ceil"
  | .sqrt => "sqrt"
  | .pow => "pow"
  | .exp => "exp"
  | .log => "log"
  | .modulo => "modulo"
  | .primitiveEquals => "primitiveEquals"
  | .equals => "equals"
  | .objectFieldsEx => "objectFieldsEx"
  | .objectHasEx => "objectHasEx"
  | .extVar => "extVar"

/-- The names of the parameters. -/
def params : LibraryFunction → List String
  | .length | .type | .floor | .ceil | .sqrt | .exp | .log | .extVar => ["x"]
  | .toString => ["a"]
  | .codepoint => ["str"]
  | .char => ["n"]
  | .makeArray => ["sz", "func"]
  | .filter => ["func", "arr"]
  | .pow => ["x", "n"]
  | .modulo | .primitiveEquals | .equals => ["x", "y"]
  | .objectFieldsEx => ["obj", "hidden"]
  | .objectHasEx => ["obj", "fname", "hidden"]

/-- The function with a name. -/
def ofName? (name : String) : Option LibraryFunction := all.find? (·.name == name)

end LibraryFunction

/-- A function that programs do not define. -/
inductive Builtin where
  | binary (op : BinaryOp)
  | unary (op : UnaryOp)
  | library (function : LibraryFunction)
  deriving DecidableEq, Repr, Inhabited

namespace Builtin

/-- The name of a builtin in messages and backtraces. -/
def name : Builtin → String
  | .binary .equal => "equals"
  | .binary .notEqual => "notEquals"
  | .binary op => "operator" ++ op.symbol
  | .unary op => "operator" ++ op.symbol
  | .library function => function.name

/-- The names of the parameters. -/
def params : Builtin → List String
  | .binary _ => ["x", "y"]
  | .unary _ => ["x"]
  | .library function => function.params

/-- The number of parameters. -/
def arity (builtin : Builtin) : Nat := builtin.params.length

/-- The text that shows name and arity. -/
def describe (builtin : Builtin) : String := s!"Builtin({builtin.name}/{builtin.arity})"

end Builtin

end Jsonnet
