import Jsonnet.Number.Decimal

/-!
# Causes of run-time errors

What can go wrong while a program runs, and the message for it.
-/

namespace Jsonnet

/-- A cause of a run-time error. -/
inductive Cause where
  /-- The program raised an error of its own. -/
  | user (message : String)
  | assertionFailed
  /-- A value of one type stands where another type is needed. -/
  | typeMismatch (expected actual : String)
  | binaryOperands (operator left right : String)
  | unaryOperand (operator operand : String)
  | divisionByZero
  | overflow
  | notANumber
  | negativeShift
  | missingField (field : String)
  | fieldNameNotString
  | duplicateField (field : String)
  | selfOutsideObject
  | superOutsideObject
  | notIndexable (type : String)
  | indexOutOfBounds (index : Int) (size : Nat)
  | fractionalIndex (index : String)
  /-- A function, named if it is a builtin, was given the wrong number of arguments. -/
  | arity (function : Option String) (expected actual : Nat)
  | missingArgument (name : String)
  | unknownParameter (name : String)
  | stackOverflow (limit : Nat)
  /-- A builtin refused an argument of the right type. -/
  | badArgument (builtin message : String)
  | functionEquality
  | functionInOutput
  | undefinedExternal (name : String)
  | importFailed (message : String)
  deriving DecidableEq, Repr, Inhabited

namespace Cause

/-- The cause of a position that is not an integer. -/
def ofFraction (index : Number) : Cause := .fractionalIndex (numberText index)

/-- The word for the kind of a cause. -/
def kind : Cause → String
  | .user .. => "UserError"
  | .assertionFailed => "AssertionFailed"
  | .typeMismatch .. => "TypeMismatch"
  | .binaryOperands .. => "BinaryOperandMismatch"
  | .unaryOperand .. => "UnaryOperandMismatch"
  | .divisionByZero => "DivisionByZero"
  | .overflow => "Overflow"
  | .notANumber => "NotANumber"
  | .negativeShift => "NegativeShift"
  | .missingField .. => "FieldDoesNotExist"
  | .fieldNameNotString => "FieldNameNotString"
  | .duplicateField .. => "DuplicateField"
  | .selfOutsideObject => "SelfOutsideObject"
  | .superOutsideObject => "SuperOutsideObject"
  | .notIndexable .. => "NotIndexable"
  | .indexOutOfBounds .. => "IndexOutOfBounds"
  | .fractionalIndex .. => "NonIntegerIndex"
  | .arity .. => "ArityMismatch"
  | .missingArgument .. => "MissingArgument"
  | .unknownParameter .. => "UnknownParameter"
  | .stackOverflow .. => "StackOverflow"
  | .badArgument .. => "BadBuiltinArgument"
  | .functionEquality => "FunctionEquality"
  | .functionInOutput => "ManifestFunction"
  | .undefinedExternal .. => "UndefinedExtVar"
  | .importFailed .. => "ImportFailed"

/-- The message for a cause. -/
def message : Cause → String
  | .user message => message
  | .assertionFailed => "Object assertion failed."
  | .typeMismatch expected actual => s!"Unexpected type {actual}, expected {expected}"
  | .binaryOperands operator left right =>
    s!"Binary operator {operator} does not operate on types {left} and {right}."
  | .unaryOperand operator operand =>
    s!"Unary operator {operator} does not operate on type {operand}."
  | .divisionByZero => "Division by zero."
  | .overflow => "Overflow"
  | .notANumber => "Not a number"
  | .negativeShift => "Shift by negative exponent."
  | .missingField field => s!"Field does not exist: {field}"
  | .fieldNameNotString => "Field name was not a string."
  | .duplicateField field => s!"Duplicate field name: \"{field}\""
  | .selfOutsideObject => "Can't use self outside of an object."
  | .superOutsideObject => "Can't use super outside of an object."
  | .notIndexable type => s!"Value non indexable: {type}"
  | .indexOutOfBounds index size => s!"Index {index} out of bounds, not within [0, {size})"
  | .fractionalIndex index => s!"Index must be an integer, got {index}"
  | .arity function expected actual =>
    let subject := function.getD "Function"
    let unit := if expected = 1 then "argument" else "arguments"
    s!"{subject} expects {expected} {unit}, got {actual}"
  | .missingArgument name => s!"Missing argument: {name}"
  | .unknownParameter name => s!"Function has no parameter {name}"
  | .stackOverflow _ => "Max stack frames exceeded."
  | .badArgument builtin message => s!"{builtin}: {message}"
  | .functionEquality => "Cannot test equality of functions"
  | .functionInOutput => "Couldn't manifest function in JSON output."
  | .undefinedExternal name => s!"Undefined external variable: {name}"
  | .importFailed message => message

end Cause

end Jsonnet
