import Jsonnet.Eval.Action

/-!
# The store

The actions that touch the state: counting steps, interning, making objects, thunks and
slots, and computing deferred values.
-/

namespace Jsonnet

namespace Action

/-! ### Operations by name -/

/-- Counts a step. -/
def count (step : Step) : Action Unit := take (.count step)

/-- The string that a name stands for. -/
def textOf (name : Name) : Action String := take (.text name)

/-- The name of a string. -/
def intern (s : String) : Action Name := take (.intern s)

/-- A new object of one literal. -/
def literal (scope : Scope) (fields : List (Name × Field)) (asserts : List Member) :
    Action Object :=
  take (.literal scope fields asserts)

/-- A new object in which `right` extends `left`. -/
def combine (left right : Object) : Action Object := take (.combine left right)

/-- Deferred values that are computed at most once, for several suspensions. -/
def shareAll (suspensions : List Suspension) : Action (List Deferred) :=
  take (.share suspensions)

/-- A deferred value that is computed at most once. -/
def share (suspension : Suspension) : Action Deferred := do
  return (← shareAll [suspension]).headD (.suspended suspension)

end Action

open Jsonnet.Action

/-! ### Tasks by name -/

/-- Evaluates an expression. -/
def Code.evaluate (code : Code) (env : Env) : Action Value := request (.evaluate code env)

/-- Evaluates an expression inside a frame at its location. -/
def Code.evaluateIn (code : Code) (context : FrameContext) (env : Env) : Action Value :=
  inFrame ⟨code.location, context⟩ (.evaluate code env)

/-- Calls a function. -/
def Function.call (function : Function) (arguments : List Deferred) (site : Location) :
    Action Value :=
  request (.call function arguments site)

/-- Checks the assertions of an object. -/
def Object.check (object : Object) : Action Unit := request (.check object)

/-- Reads a field of an object from a depth on. -/
def Object.read (object : Object) (minDepth : Nat) (name : Name) (site : Location) :
    Action Value :=
  request (.readField object minDepth name site)

/-- Computes everything that a value is written out with. -/
def Value.document (value : Value) : Action Document := request (.document value)

/-- Whether two values are equal. -/
def Value.equal (x y : Value) : Action Bool := request (.equal x y)

/-- The order of two values on behalf of an operator. -/
def Value.order (operator : BinaryOp) (x y : Value) : Action Ordering :=
  request (.order operator x y)

/-! ### Computing deferred values -/

/-- Carries out a suspended computation. -/
def Suspension.run : Suspension → Action Value
  | .code context env body => do
    count .thunk
    body.evaluateIn context env
  | .call function arguments site => function.call arguments site

/-- The result of a deferred value. -/
def Deferred.force : Deferred → Action Value
  | .ready value => return value
  | .suspended suspension => suspension.run
  | .shared thunk => request (.force thunk)
  | .failed failure => fail failure

/-- The deferred value that is computed at most once. -/
def Deferred.sharing : Deferred → Action Deferred
  | .suspended suspension => share suspension
  | other => return other

/-! ### Values of one type -/

/-- The number that a value has to be. -/
def Value.expectNumber (site : Location) : Value → Action Number
  | .number x => return x
  | other => raise (.typeMismatch "number" other.typeName) site

/-- The string that a value has to be. -/
def Value.expectString (site : Location) : Value → Action String
  | .string s => return s
  | other => raise (.typeMismatch "string" other.typeName) site

/-- The truth value that a value has to be. -/
def Value.expectBool (site : Location) : Value → Action Bool
  | .bool b => return b
  | other => raise (.typeMismatch "boolean" other.typeName) site

/-- The elements of the array that a value has to be. -/
def Value.expectArray (site : Location) : Value → Action (Array Deferred)
  | .array elements => return elements
  | other => raise (.typeMismatch "array" other.typeName) site

/-- The function that a value has to be. -/
def Value.expectFunction (site : Location) : Value → Action Function
  | .function f => return f
  | other => raise (.typeMismatch "function" other.typeName) site

/-- The object that a value has to be. -/
def Value.expectObject (site : Location) : Value → Action Object
  | .object o => return o
  | other => raise (.typeMismatch "object" other.typeName) site

end Jsonnet
