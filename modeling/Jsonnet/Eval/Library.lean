import Jsonnet.Eval.Operator

/-!
# The standard library

What the functions of the standard library compute, and the values of external
variables. Arguments are computed when the function needs them.
-/

namespace Jsonnet

open Jsonnet.Action

/-- Refuses an argument. -/
def refuse {α : Type} (f : LibraryFunction) (message : String) : Action α :=
  raiseHere (.badArgument f.name message)

/-- The number that an argument has to be. -/
def numberArgument (x : Deferred) : Action Number := do (← x.force).expectNumber .unknown

/-- The string that an argument has to be. -/
def stringArgument (x : Deferred) : Action String := do (← x.force).expectString .unknown

/-! ### Values and their sizes -/

/-- The number of characters, elements, fields that are not hidden, or parameters. -/
def lengthOf (x : Deferred) : Action Value := do
  match ← x.force with
  | .string s => return .number (.ofNat s.length)
  | .array elements => return .number (.ofNat elements.size)
  | .object object => return .number (.ofNat (object.fieldNames false).length)
  | .function f => return .number (.ofNat f.arity)
  | other =>
    refuse .length s!"operates on strings, objects, and arrays, got {other.typeName}"

/-- The number of the only character of a string. -/
def codepointOf (x : Deferred) : Action Value := do
  let s ← stringArgument x
  match s.toList with
  | [c] => return .number (.ofNat c.toNat)
  | cs => refuse .codepoint s!"takes a string of length 1, got length {cs.length}"

/-- The character with a number, as a string. -/
def charOf (x : Deferred) : Action Value := do
  let n ← numberArgument x
  if n.less .zero then refuse .char s!"Codepoints must be >= 0, got {numberText n}"
  else
    let code := n.word.toNat
    if n.lessEq (.ofNat 4294967295) && decide code.isValidChar then
      return .string (String.singleton (Char.ofNat code))
    else refuse .char s!"Invalid unicode codepoint, got {numberText n}"

/-! ### Arrays -/

/-- The greatest number of elements of an array: an element takes 24 bytes, and memory
comes in blocks of `2 ^ 63 - 8` bytes at most. -/
def maxElements : Nat := (Nat.pow 2 63 - 8) / 24

/-- The array of the calls of a function with the numbers from zero on. A size that no
array can have is the end of the evaluation. -/
def makeArray (size func : Deferred) : Action Value := do
  let n ← numberArgument size
  if !n.isIntegral then
    refuse .makeArray s!"requires size to be an integer, got {numberText n}"
  else if n.less .zero then refuse .makeArray s!"requires size >= 0, got {numberText n}"
  else
    let f ← (← func.force).expectFunction .unknown
    let count := n.word.toNat
    if maxElements < count then fail (.breakdown "capacity overflow")
    else
      let calls := (List.range count).map fun i =>
        Suspension.call f [.ready (.number (.ofNat i))] .unknown
      return .array (← shareAll calls).toArray

/-- The elements that a function accepts; `kept` are those accepted so far, last
first. -/
def filterElements (f : Function) (kept : List Deferred) : List Deferred → Action Value
  | [] => return .array kept.reverse.toArray
  | element :: rest => do
    match ← f.call [element] .unknown with
    | .bool true => filterElements f (element :: kept) rest
    | .bool false => filterElements f kept rest
    | other => refuse .filter s!"function must return boolean, got: {other.typeName}"

/-- The elements of an array that a function accepts. -/
def filterArray (func array : Deferred) : Action Value := do
  let f ← (← func.force).expectFunction .unknown
  let elements ← (← array.force).expectArray .unknown
  filterElements f [] elements.toList

/-! ### Numbers -/

/-- A function of one number. -/
def ofNumber (f : Number → Number) (x : Deferred) : Action Value := do
  checked (f (← numberArgument x))

/-! ### Objects -/

/-- The strings of some names, as an array; `done` are those known so far, last first. -/
def fieldTexts (done : List Value) : List Name → Action Value
  | [] => return .ofList done.reverse
  | name :: rest => do
    let s ← textOf name
    fieldTexts (.string s :: done) rest

/-- The names of an object's fields. -/
def fieldsOf (object hidden : Deferred) : Action Value := do
  let o ← (← object.force).expectObject .unknown
  let includeHidden ← (← hidden.force).expectBool .unknown
  fieldTexts [] (← sortedFields o includeHidden)

/-- Whether an object has a field. -/
def hasField (object field hidden : Deferred) : Action Value := do
  let o ← (← object.force).expectObject .unknown
  let s ← stringArgument field
  let includeHidden ← (← hidden.force).expectBool .unknown
  return .bool (o.hasField (← intern s) includeHidden)

/-! ### Code from outside -/

/-- The value of an external variable. -/
def externalVariable (name : Name) : Action Value := do
  match (← session).externals.reverse.lookup name with
  | none => raiseHere (.undefinedExternal (← textOf name))
  | some given => do
    let value ← take (.external name given)
    value.force

/-! ### Calls -/

/-- What a function of the library computes; nothing for a wrong number of arguments. -/
def applyLibrary (f : LibraryFunction) (arguments : List Deferred) : Option (Action Value) :=
  match f, arguments with
  | .length, [x] => some (lengthOf x)
  | .type, [x] => some do return .string (← x.force).typeName
  | .toString, [x] => some do return .string (← (← x.force).displayed)
  | .codepoint, [x] => some (codepointOf x)
  | .char, [x] => some (charOf x)
  | .makeArray, [size, func] => some (makeArray size func)
  | .filter, [func, array] => some (filterArray func array)
  | .floor, [x] => some (ofNumber Number.floor x)
  | .ceil, [x] => some (ofNumber Number.ceil x)
  | .sqrt, [x] => some (ofNumber Number.sqrt x)
  | .pow, [x, n] => some do
    let a ← numberArgument x
    let b ← numberArgument n
    checked (a.pow b)
  | .exp, [x] => some (ofNumber Number.exp x)
  | .log, [x] => some (ofNumber Number.log x)
  | .modulo, [x, y] => some (divide Number.remainder x y)
  | .primitiveEquals, [x, y] => some do
    let a ← x.force
    let b ← y.force
    return .bool (← primitiveEqual a b)
  | .equals, [x, y] => some do return .bool (← operandsEqual x y)
  | .objectFieldsEx, [object, hidden] => some (fieldsOf object hidden)
  | .objectHasEx, [object, field, hidden] => some (hasField object field hidden)
  | .extVar, [x] => some do externalVariable (← intern (← stringArgument x))
  | _, _ => none

/-- What a builtin computes. -/
def applyBuiltin (builtin : Builtin) (arguments : List Deferred) : Action Value :=
  let action := match builtin, arguments with
    | .binary op, [x, y] => some (applyBinary op x y)
    | .unary op, [x] => some (applyUnary op x)
    | .library f, arguments => applyLibrary f arguments
    | _, _ => none
  action.getD (fail (.internal s!"builtin {builtin.name} registered with the wrong arity"))

/-- Calls a function. The number of arguments is checked before anything else. -/
def callFunction (function : Function) (arguments : List Deferred) (site : Location) :
    Action Value :=
  match function with
  | .closure env params body => do
    if arguments.length != params.length then
      raise (.arity none params.length arguments.length) site
    else do
      count .functionCall
      inFrame ⟨site, .function⟩
        (.evaluate body (env.withScope (env.scope.bindValues (params.zip arguments))))
  | .builtin b => do
    if arguments.length != b.arity then
      raise (.arity (some b.name) b.arity arguments.length) site
    else do
      count .builtinCall
      inFrame ⟨site, .builtin b.name⟩ (.builtin b arguments)

end Jsonnet
