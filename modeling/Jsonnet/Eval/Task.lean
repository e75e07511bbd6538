import Jsonnet.Json.Document
import Jsonnet.Session.State

/-!
# Tasks

A task is a piece of evaluation that may, by way of other tasks, come back to itself:
evaluating an expression, computing a thunk, calling a function, reading a field, writing
a value out, and comparing two values.
-/

namespace Jsonnet

/-- A piece of evaluation. -/
inductive Task where
  | evaluate (code : Code) (env : Env)
  /-- Computing a deferred value that is computed at most once. -/
  | force (thunk : ThunkId)
  | call (function : Function) (arguments : List Deferred) (site : Location)
  /-- What a builtin computes, inside its frame. -/
  | builtin (builtin : Builtin) (arguments : List Deferred)
  /-- Checking the assertions of an object. -/
  | check (object : Object)
  /-- Reading a field from a depth on. -/
  | readField (object : Object) (minDepth : Nat) (name : Name) (site : Location)
  /-- Computing a field that a literal of a checked object defines. -/
  | field (object : Object) (leaf : Leaf) (depth : Nat) (name : Name) (site : Location)
  /-- Computing everything that a value is written out with. -/
  | document (value : Value)
  | equal (x y : Value)
  /-- Ordering two values on behalf of an operator. -/
  | order (operator : BinaryOp) (x y : Value)
  /-- The result of a program, inside the outermost frame. -/
  | program (code : Code)
  /-- The text of the result of a program, inside the outermost frame. -/
  | output (code : Code)

/-- The type of a task's result. -/
@[reducible] def Task.Result : Task → Type
  | .evaluate .. | .force _ | .call .. | .builtin .. | .readField .. | .field ..
  | .program _ => Value
  | .check _ => Unit
  | .document _ => Document
  | .equal .. => Bool
  | .order .. => Ordering
  | .output _ => String

end Jsonnet
