import Jsonnet.Eval.Library

/-!
# Expressions

What each kind of expression computes. Elements, arguments and bound names are put off
until they are needed; the names of an object's fields are computed with the object, its
fields and assertions are not.
-/

namespace Jsonnet

open Jsonnet.Action

/-! ### Names -/

/-- The value of a variable. -/
def variableValue (env : Env) (name : Name) : Action Value := do
  match env.scope.lookup name with
  | some (.value deferred) => deferred.force
  | some (.slot slot) => do
    let deferred ← take (.slot slot)
    deferred.force
  | none => fail (.unknownVariable (← textOf name))

/-! ### Objects -/

/-- The fields of an object literal; `done` are those whose names are known, last first.
A field whose name is null is left out. -/
def literalFields (code : Code) (env : Env) (done : List (Name × Field)) :
    List FieldDef → Action (List (Name × Field))
  | [] => return done.reverse
  | field :: rest => do
    let site := code.arena.location field.name
    match ← (code.sibling field.name).evaluate env with
    | .null => literalFields code env done rest
    | .string s => do
      let name ← intern s
      if done.any (·.1 == name) then raise (.duplicateField (← textOf name)) site
      else
        let member := Member.code (code.sibling field.body) field.extendsSuper
        literalFields code env ((name, ⟨field.visibility, member⟩) :: done) rest
    | _ => raise .fieldNameNotString site

/-- The object of an object literal. -/
def literalObject (code : Code) (env : Env) (asserts : List NodeId)
    (fields : List FieldDef) : Action Value := do
  let fields ← literalFields code env [] fields
  let members := asserts.map fun id => Member.code (code.sibling id) false
  return .object (← literal env.scope fields members)

/-! ### Positions -/

/-- The position that a value gives in a sequence of some size. -/
def positionIn (size : Nat) (site : Location) (index : Value) : Action Nat := do
  let x ← index.expectNumber site
  if !x.isIntegral then raise (.ofFraction x) site
  else if x.less .zero || (Number.ofNat size).lessEq x then
    raise (.indexOutOfBounds x.word size) site
  else return x.word.toNat

/-- A field of an object, an element of an array or a character of a string. -/
def indexValue (target index : Value) (site : Location) : Action Value := do
  match target with
  | .object object => do
    let name ← intern (← index.expectString site)
    object.read 0 name site
  | .array elements => do
    let position ← positionIn elements.size site index
    (elements[position]?.getD (.ready .null)).force
  | .string s => do
    let cs := s.toList
    let position ← positionIn cs.length site index
    return .string (String.singleton (cs[position]?.getD '\x00'))
  | other => raise (.notIndexable other.typeName) site

/-! ### Imports -/

/-- The directory that the imports of a file are resolved from. -/
def directoryOf (arena : Arena) : Action String := do
  return Path.directory (← textOf arena.file)

/-! ### Nodes -/

/-- Evaluates an expression. -/
def evaluateCode (code : Code) (env : Env) : Action Value := do
  count .expression
  let site := code.location
  let child (id : NodeId) : Action Value := (code.sibling id).evaluate env
  match code.node with
  | .null => return .null
  | .bool b => return .bool b
  | .number x => return .number x
  | .string s => return .string (← textOf s)
  | .var name => variableValue env name
  | .locals binds body => do
    let inner ← take (.bindLocals code env (code.arena.readBinds binds))
    (code.sibling body).evaluate inner
  | .function params body =>
    return .function (.closure env (code.arena.readParams params) (code.sibling body))
  | .apply target arguments => do
    let f ← (← child target).expectFunction site
    let context := FrameContext.thunk (← session).argumentName
    let thunks ← shareAll ((code.arena.readList arguments).map fun id =>
      .code context env (code.sibling id))
    f.call thunks site
  | .array elements => do
    let context := FrameContext.thunk (← session).elementName
    let thunks ← shareAll ((code.arena.readList elements).map fun id =>
      .code context env (code.sibling id))
    return .array thunks.toArray
  | .object asserts fields =>
    literalObject code env (code.arena.readList asserts) (code.arena.readFields fields)
  | .binary op left right => do
    let x ← child left
    let y ←
      if op.isShortCircuit then do
        let context := FrameContext.thunk (← session).rightOperandName
        pure (Deferred.suspended (.code context env (code.sibling right)))
      else do pure (Deferred.ready (← child right))
    (Function.builtin (.binary op)).call [.ready x, y] site
  | .unary op operand => do
    let x ← child operand
    (Function.builtin (.unary op)).call [.ready x] site
  | .conditional condition whenTrue whenFalse => do
    let decision ← (← child condition).expectBool (code.arena.location condition)
    if decision then child whenTrue else child whenFalse
  | .index target position => do
    let x ← child target
    let i ← child position
    indexValue x i site
  | .superIndex position => do
    match env.self? with
    | none => raise .superOutsideObject site
    | some object => do
      let s ← (← child position).expectString site
      object.read (addLeaves env.superDepth 1) (← intern s) site
  | .selfRef =>
    match env.self? with
    | none => raise .selfOutsideObject site
    | some object => return .object object
  | .error message => do
    let s ← (← child message).expectString site
    raise (.user s) site
  | .importCode path => do
    let value ← take (.imported (← directoryOf code.arena) path site)
    value.force
  | .importText path => do
    let file ← take (.importText (← directoryOf code.arena) (← textOf path) site)
    return .string file.content

end Jsonnet
