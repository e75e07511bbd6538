import Jsonnet.CallStack
import Jsonnet.Syntax.Arena
import Jsonnet.Value.Builtin

/-!
# Values

What evaluation computes, and what it puts off. Array elements, arguments and bound
names hold deferred values; the fields of objects hold code that is bound to an object
when the field is read. A deferred value that is computed at most once stands in a store
under a number, and so do the bindings of `local` expressions and the progress of an
object's assertions.
-/

namespace Jsonnet

/-- The number of a deferred value that is computed at most once. -/
structure ThunkId where
  index : Nat
  deriving DecidableEq, Repr, Inhabited, Hashable

/-- The number of a binding of a `local` expression. -/
structure SlotId where
  index : Nat
  deriving DecidableEq, Repr, Inhabited, Hashable

/-- The identity of an object. -/
structure ObjectId where
  index : Nat
  deriving DecidableEq, Repr, Inhabited, Hashable

mutual

/-- A computed value. -/
inductive Value where
  | null
  | bool (value : Bool)
  | number (value : Number)
  | string (value : String)
  | array (elements : Array Deferred)
  | function (function : Function)
  | object (object : Object)

/-- A function: of the program, with the environment it was made in, or built in. -/
inductive Function where
  | closure (env : Env) (params : List Name) (body : Code)
  | builtin (builtin : Builtin)

/-- A value that may not have been computed yet. -/
inductive Deferred where
  | ready (value : Value)
  /-- Computed afresh at every use. -/
  | suspended (suspension : Suspension)
  /-- Computed at the first use. -/
  | shared (thunk : ThunkId)
  /-- Fails at every use. -/
  | failed (failure : Failure)

/-- A computation that waits for its result to be needed. -/
inductive Suspension where
  /-- An expression, evaluated inside a frame with the given context. -/
  | code (context : FrameContext) (env : Env) (code : Code)
  /-- A call at a location. -/
  | call (function : Function) (arguments : List Deferred) (site : Location)

/-- What a name is bound to. -/
inductive Binding where
  | value (deferred : Deferred)
  | slot (slot : SlotId)

/-- The names in scope: layers of bindings, the innermost outermost. In a layer a later
binding hides an earlier one of the same name. -/
inductive Scope where
  | empty
  | layer (bindings : List (Name × Binding)) (outer : Scope)

/-- What an expression can refer to: the names in scope, the object that is `self`, and
how many objects stand to the right of the one the expression belongs to. -/
structure Env where
  scope : Scope
  self? : Option Object
  superDepth : Nat

/-- The body of a field or an assertion, not yet bound to an object. -/
inductive Member where
  /-- An expression; `extendsSuper` marks a field that extends the one further left. -/
  | code (code : Code) (extendsSuper : Bool)
  | ready (value : Value)

/-- A field of an object literal. -/
structure Field where
  visibility : Visibility
  member : Member

/-- An object literal: its fields, in the order in which they are written and each name
once, its assertions and the scope that both were written in. -/
structure Leaf where
  id : ObjectId
  scope : Scope
  fields : List (Name × Field)
  asserts : List Member

/-- An object: a literal, or two objects of which the right one extends the left. -/
inductive Object where
  | leaf (leaf : Leaf)
  | join (id : ObjectId) (size : Nat) (hasAsserts : Bool) (left right : Object)

end

/-- What the store holds under the number of a thunk. -/
inductive Cell where
  | pending (suspension : Suspension)
  | ready (value : Value)

instance : Inhabited Value := ⟨.null⟩
instance : Inhabited Deferred := ⟨.ready .null⟩
instance : Inhabited Scope := ⟨.empty⟩
instance : Inhabited Env := ⟨⟨.empty, none, 0⟩⟩
instance : Inhabited Cell := ⟨.ready .null⟩

namespace Value

/-- The name of a value's type. -/
def typeName : Value → String
  | .null => "null"
  | .bool _ => "boolean"
  | .number _ => "number"
  | .string _ => "string"
  | .array _ => "array"
  | .function _ => "function"
  | .object _ => "object"

/-- The number, if the value is one. -/
def number? : Value → Option Number
  | .number value => some value
  | _ => none

/-- The string, if the value is one. -/
def string? : Value → Option String
  | .string value => some value
  | _ => none

/-- The truth value, if the value is one. -/
def bool? : Value → Option Bool
  | .bool value => some value
  | _ => none

/-- The array of computed elements. -/
def ofList (elements : List Value) : Value := .array (elements.map Deferred.ready).toArray

end Value

/-- The number of parameters of a function. -/
def Function.arity : Function → Nat
  | .closure _ params _ => params.length
  | .builtin b => b.arity

namespace Scope

/-- A scope with a layer more; no layer is made for no binding. -/
def extend (scope : Scope) (bindings : List (Name × Binding)) : Scope :=
  if bindings.isEmpty then scope else .layer bindings scope

/-- A scope with a layer of deferred values. -/
def bindValues (scope : Scope) (values : List (Name × Deferred)) : Scope :=
  scope.extend (values.map fun (name, value) => (name, .value value))

/-- A scope with a layer of slots. -/
def bindSlots (scope : Scope) (slots : List (Name × SlotId)) : Scope :=
  scope.extend (slots.map fun (name, slot) => (name, .slot slot))

/-- The innermost binding of a name. -/
def lookup (name : Name) : Scope → Option Binding
  | .empty => none
  | .layer bindings outer =>
    match bindings.reverse.lookup name with
    | some binding => some binding
    | none => lookup name outer

/-- The number of layers. -/
def depth : Scope → Nat
  | .empty => 0
  | .layer _ outer => outer.depth + 1

end Scope

namespace Env

/-- The environment in which nothing can be referred to. -/
def empty : Env := ⟨.empty, none, 0⟩

/-- The same object with other names in scope. -/
def withScope (env : Env) (scope : Scope) : Env := { env with scope }

end Env

end Jsonnet
