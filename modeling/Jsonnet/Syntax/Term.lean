import Jsonnet.Interner
import Jsonnet.Syntax.Arena

/-!
# Terms

A term is an expression as a tree, with its names spelled out. Storing a term in an
arena numbers its nodes in post-order: children before their parent, in the order in
which they are written.
-/

namespace Jsonnet

/-- How a field of an object term is marked: its visibility, and whether it extends the
field further left. -/
structure FieldMark where
  visibility : Visibility
  extendsSuper : Bool
  deriving DecidableEq, Repr, Inhabited

/-- The mark that is written before the body of a field; a leading plus extends. -/
def FieldMark.ofText? (text : String) : Option FieldMark :=
  match text.toList with
  | '+' :: mark => (Visibility.ofMark? (String.ofList mark)).map fun v => ⟨v, true⟩
  | mark => (Visibility.ofMark? (String.ofList mark)).map fun v => ⟨v, false⟩

/-- An expression as a tree. -/
inductive Term where
  | null
  | bool (value : Bool)
  | number (value : Number)
  | string (value : String)
  | var (name : String)
  | locals (binds : List (String × Term)) (body : Term)
  | function (params : List String) (body : Term)
  | apply (target : Term) (arguments : List Term)
  | array (elements : List Term)
  | object (asserts : List Term) (fields : List (Term × FieldMark × Term))
  | binary (op : BinaryOp) (left right : Term)
  | unary (op : UnaryOp) (operand : Term)
  | conditional (condition whenTrue whenFalse : Term)
  | index (target position : Term)
  | superIndex (position : Term)
  | selfRef
  | error (message : Term)
  | importCode (path : String)
  | importText (path : String)
  /-- The expression with a span of its own. -/
  | spanned (span : Span) (term : Term)
  deriving Inhabited

namespace Term

/-- An arena under construction, with the interner that names are taken from. -/
abbrev Storing := StateM (Interner × Arena)

/-- Runs a step that appends to the arena. -/
def building {α : Type} (step : Build α) : Storing α :=
  modifyGet fun (names, arena) =>
    let (result, arena) := step.run arena
    (result, names, arena)

/-- The name of a string. -/
def naming (s : String) : Storing Name :=
  modifyGet fun (names, arena) =>
    let (name, names) := names.intern s
    (name, names, arena)

/-- The names of several strings. -/
def namingAll (strings : List String) : Storing (List Name) :=
  modifyGet fun (names, arena) =>
    let (result, names) := names.internAll strings
    (result, names, arena)

/-- The span of the next node: the one given to the term; otherwise the node's number
and its successor where nodes are `numbered`; otherwise none. -/
def spanOf (numbered : Bool) (given : Option Span) : Storing Span := do
  match given with
  | some span => return span
  | none =>
    if numbered then
      let (_, arena) ← get
      return ⟨arena.size.toUInt32, (arena.size + 1).toUInt32⟩
    else return .none

/-- Appends a node without lists of children. -/
def leaf (numbered : Bool) (given : Option Span) (node : Node) : Storing NodeId := do
  building (Build.alloc node (← spanOf numbered given))

mutual

/-- Appends a term, its children first, and gives its number. -/
def store (numbered : Bool) (given : Option Span) : Term → Storing NodeId
  | .null => leaf numbered given .null
  | .bool value => leaf numbered given (.bool value)
  | .number value => leaf numbered given (.number value)
  | .string value => do leaf numbered given (.string (← naming value))
  | .var name => do leaf numbered given (.var (← naming name))
  | .locals binds body => do
    let binds ← storeBinds numbered binds
    let body ← store numbered none body
    building (Build.locals binds body (← spanOf numbered given))
  | .function params body => do
    let params ← namingAll params
    let body ← store numbered none body
    building (Build.function params body (← spanOf numbered given))
  | .apply target arguments => do
    let target ← store numbered none target
    let arguments ← storeList numbered arguments
    building (Build.apply target arguments (← spanOf numbered given))
  | .array elements => do
    let elements ← storeList numbered elements
    building (Build.array elements (← spanOf numbered given))
  | .object asserts fields => do
    let asserts ← storeList numbered asserts
    let fields ← storeFields numbered fields
    building (Build.object asserts fields (← spanOf numbered given))
  | .binary op left right => do
    let left ← store numbered none left
    let right ← store numbered none right
    leaf numbered given (.binary op left right)
  | .unary op operand => do
    leaf numbered given (.unary op (← store numbered none operand))
  | .conditional condition whenTrue whenFalse => do
    let condition ← store numbered none condition
    let whenTrue ← store numbered none whenTrue
    let whenFalse ← store numbered none whenFalse
    leaf numbered given (.conditional condition whenTrue whenFalse)
  | .index target position => do
    let target ← store numbered none target
    let position ← store numbered none position
    leaf numbered given (.index target position)
  | .superIndex position => do
    leaf numbered given (.superIndex (← store numbered none position))
  | .selfRef => leaf numbered given .selfRef
  | .error message => do
    leaf numbered given (.error (← store numbered none message))
  | .importCode path => do leaf numbered given (.importCode (← naming path))
  | .importText path => do leaf numbered given (.importText (← naming path))
  | .spanned span term => store numbered (some span) term

/-- Appends terms in their order. -/
def storeList (numbered : Bool) : List Term → Storing (List NodeId)
  | [] => return []
  | term :: rest => do
    let id ← store numbered none term
    return id :: (← storeList numbered rest)

/-- Appends the bodies of bindings in their order. -/
def storeBinds (numbered : Bool) : List (String × Term) → Storing (List Bind)
  | [] => return []
  | (name, body) :: rest => do
    let name ← naming name
    let body ← store numbered none body
    return ⟨name, body⟩ :: (← storeBinds numbered rest)

/-- Appends the names and bodies of fields in their order. -/
def storeFields (numbered : Bool) :
    List (Term × FieldMark × Term) → Storing (List FieldDef)
  | [] => return []
  | (name, mark, body) :: rest => do
    let name ← store numbered none name
    let body ← store numbered none body
    return ⟨name, mark.visibility, body, mark.extendsSuper⟩ :: (← storeFields numbered rest)

end

/-- The code of a term as a file of its own. -/
def compile (term : Term) (names : Interner) (file : String) (numbered : Bool) :
    Code × Interner :=
  let (fileName, names) := names.intern file
  let (root, names, arena) := (term.store numbered none).run (names, Arena.new fileName)
  (⟨arena, root⟩, names)

end Term

end Jsonnet
