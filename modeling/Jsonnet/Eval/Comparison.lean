import Jsonnet.Eval.Output

/-!
# Comparison

Values of different types are unequal, and functions cannot be compared. Arrays and
objects are equal when they would be written out alike. Numbers, strings and arrays of
them are ordered, arrays by their first difference.
-/

namespace Jsonnet

open Jsonnet.Action

/-! ### Equality -/

/-- Whether two lists of deferred values of one length are equal. -/
def elementsEqual : List Deferred → List Deferred → Action Bool
  | x :: xs, y :: ys => do
    let x ← x.force
    let y ← y.force
    if ← x.equal y then elementsEqual xs ys else return false
  | _, _ => return true

/-- Whether two objects have equal values in some fields. -/
def fieldsEqual (a b : Object) : List Name → Action Bool
  | [] => return true
  | name :: rest => do
    let x ← a.read 0 name .unknown
    let y ← b.read 0 name .unknown
    if ← x.equal y then fieldsEqual a b rest else return false

/-- Whether two values are equal. -/
def computeEqual : Value → Value → Action Bool
  | .null, .null => return true
  | .bool a, .bool b => return a == b
  | .number a, .number b => return a.equal b
  | .string a, .string b => return a == b
  | .array a, .array b =>
    if a.size != b.size then return false else elementsEqual a.toList b.toList
  | .object a, .object b => do
    let fields ← sortedFields a false
    if fields != (← sortedFields b false) then return false else fieldsEqual a b fields
  | .function _, .function _ => raiseHere .functionEquality
  | _, _ => return false

/-- Whether two values that are neither arrays nor objects are equal. -/
def primitiveEqual (x y : Value) : Action Bool :=
  if x.typeName != y.typeName then return false
  else
    match x, y with
    | .null, .null => return true
    | .bool a, .bool b => return a == b
    | .number a, .number b => return a.equal b
    | .string a, .string b => return a == b
    | .function _, _ => raiseHere .functionEquality
    | x, _ => raiseHere (.badArgument "primitiveEquals"
        s!"operates on primitive types, got {x.typeName}")

/-! ### Order -/

/-- The order of two numbers; what is not a number is equal to every number. -/
def orderNumbers (a b : Number) : Ordering :=
  if a.less b then .lt else if b.less a then .gt else .eq

/-- The order of two lists of deferred values by their first difference; a list that
ends first is less. -/
def orderElements (operator : BinaryOp) : List Deferred → List Deferred → Action Ordering
  | [], [] => return .eq
  | [], _ :: _ => return .lt
  | _ :: _, [] => return .gt
  | x :: xs, y :: ys => do
    let x ← x.force
    let y ← y.force
    match ← x.order operator y with
    | .eq => orderElements operator xs ys
    | decided => return decided

/-- The order of two values on behalf of an operator. -/
def computeOrder (operator : BinaryOp) : Value → Value → Action Ordering
  | .number a, .number b => return orderNumbers a b
  | .string a, .string b => return compare a b
  | .array a, .array b => orderElements operator a.toList b.toList
  | x, y => raiseHere (.binaryOperands operator.symbol x.typeName y.typeName)

end Jsonnet
