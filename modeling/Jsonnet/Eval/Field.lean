import Jsonnet.Eval.Store

/-!
# Fields and assertions

Before a field of an object is read, the object's assertions are checked, once for every
object. A field is computed with `self` bound to the object it is read from and `super`
to the literals left of its definition; the result is kept for that object, field and
depth. A field that extends the one further left is added to it.
-/

namespace Jsonnet

open Jsonnet.Action

/-! ### Assertions -/

/-- The environment of a member of a literal, as part of an object. -/
def Leaf.env (leaf : Leaf) (object : Object) (depth : Nat) : Env :=
  ⟨leaf.scope, some object, depth⟩

/-- Accepts the value of an assertion if it is true. -/
def acceptAssertion (value : Value) (site : Location) : Action Unit :=
  match value with
  | .bool true => return
  | .bool false => raise .assertionFailed site
  | other => raise (.typeMismatch "boolean" other.typeName) site

/-- Checks one assertion. -/
def checkAssertion (object : Object) (leaf : Leaf) (depth : Nat) (assertion : Member) :
    Action Unit := do
  match assertion with
  | .ready value => acceptAssertion value .unknown
  | .code body _ => do
    let value ← body.evaluateIn .assertion (leaf.env object depth)
    acceptAssertion value body.location

/-- The assertions of an object with their literals and depths: those of the most
derived literal first, and those of one literal in the order in which they are
written. -/
def Object.assertions (object : Object) : List (Leaf × Nat × Member) :=
  object.leaves.flatMap fun (l, depth) => l.asserts.map fun a => (l, depth, a)

/-- Checks some assertions of an object in their order. -/
def checkAssertions (object : Object) : List (Leaf × Nat × Member) → Action Unit
  | [] => return
  | (l, depth, a) :: rest => do
    checkAssertion object l depth a
    checkAssertions object rest

/-- The state of an object's assertions. -/
def checkOf (object : Object) (state : State) : AssertionState :=
  state.checks[object.id.index]?.getD .notChecked

/-- Sets the state of an object's assertions. -/
def setCheck (object : Object) (check : AssertionState) (state : State) : State :=
  { state with checks := state.checks.setIfInBounds object.id.index check }

/-- Whether an object counts as valid: it has no assertions, they have passed, or the
check of them is going on. -/
def Object.isSettled (object : Object) (state : State) : Bool :=
  !object.hasAsserts || checkOf object state != .notChecked

/-! ### Fields -/

/-- The key under which the value of a field is kept. -/
def Object.fieldKey (object : Object) (name : Name) (depth : Nat) : FieldKey :=
  ⟨object.id, name, depth⟩

/-- The value of a field that was found in a literal of an object at a depth. -/
def computeField (object : Object) (leaf : Leaf) (depth : Nat) (name : Name)
    (site : Location) : Action Value := do
  match leaf.field? name with
  | none => fail (.internal "field hit without a definition")
  | some ⟨_, .ready value⟩ => return value
  | some ⟨_, .code body extendsSuper⟩ => do
    let value ← body.evaluateIn (.field name) (leaf.env object depth)
    let superDepth := addLeaves depth 1
    if extendsSuper && (object.find? superDepth name).isSome then
      let inherited ← object.read superDepth name site
      (Function.builtin (.binary .add)).call [.ready inherited, .ready value] site
    else return value

/-- The value of the right-most field of a name behind the first `minDepth` literals. -/
def readField (object : Object) (minDepth : Nat) (name : Name) (site : Location) :
    Action Value := do
  object.check
  match object.find? minDepth name with
  | none => raise (.missingField (← textOf name)) site
  | some (leaf, depth) => request (.field object leaf depth name site)

end Jsonnet
