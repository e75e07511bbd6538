import Jsonnet.Number.Decimal
import Jsonnet.Source.Location
import Jsonnet.Syntax.Node

/-!
# Arenas

The arena of a file holds its expressions in one table, in the order in which they
were made. Lists of children lie one after the other in four further tables. Building
only appends, so a node and its children never change.
-/

namespace Jsonnet

/-- The expressions of one file. -/
structure Arena where
  file : Name
  nodes : Array Node := #[]
  spans : Array Span := #[]
  lists : Array NodeId := #[]
  binds : Array Bind := #[]
  params : Array Name := #[]
  fields : Array FieldDef := #[]
  deriving Inhabited

namespace Arena

/-- The arena of a file without expressions. -/
def new (file : Name) : Arena := { file }

/-- The number of nodes. -/
def size (arena : Arena) : Nat := arena.nodes.size

/-- Whether there is no node. -/
def isEmpty (arena : Arena) : Bool := arena.nodes.isEmpty

/-! ### Reading -/

/-- The node with a number. -/
def node (arena : Arena) (id : NodeId) : Node := arena.nodes[id.index]?.getD .null

/-- The span of a node. -/
def span (arena : Arena) (id : NodeId) : Span := arena.spans[id.index]?.getD .none

/-- The location of a node. -/
def location (arena : Arena) (id : NodeId) : Location := ⟨arena.file, arena.span id⟩

/-- The expressions of a slice. -/
def readList (arena : Arena) (slice : Slice NodeId) : List NodeId := slice.read arena.lists

/-- The bindings of a slice. -/
def readBinds (arena : Arena) (slice : Slice Bind) : List Bind := slice.read arena.binds

/-- The parameter names of a slice. -/
def readParams (arena : Arena) (slice : Slice Name) : List Name := slice.read arena.params

/-- The field definitions of a slice. -/
def readFields (arena : Arena) (slice : Slice FieldDef) : List FieldDef :=
  slice.read arena.fields

/-- The text that shows the sizes of an arena. -/
def describe (arena : Arena) : String :=
  s!"ExprArena \x7b file: {arena.file.describe}, {arena.nodes.size} exprs, " ++
    s!"{arena.lists.size} list entries, {arena.binds.size} binds, {arena.fields.size} fields \x7d"

end Arena

/-- The text that shows a node. -/
def Node.describe : Node → String
  | .null => "Null"
  | .bool value => s!"Bool({value})"
  | .number value => s!"Number({numberText value})"
  | .string value => s!"Str({value.describe})"
  | .var name => s!"Var({name.describe})"
  | .locals binds body => "Local(" ++ binds.describe "BindRange" ++ ", " ++ body.describe ++ ")"
  | .function params body =>
    "Function(" ++ params.describe "ParamRange" ++ ", " ++ body.describe ++ ")"
  | .apply target arguments =>
    "Apply(" ++ target.describe ++ ", " ++ arguments.describe "ExprRange" ++ ")"
  | .array elements => "Array(" ++ elements.describe "ExprRange" ++ ")"
  | .object asserts fields =>
    "Object(" ++ asserts.describe "ExprRange" ++ ", " ++ fields.describe "FieldRange" ++ ")"
  | .binary op left right => s!"Binary({left.describe} {op.symbol} {right.describe})"
  | .unary op operand => s!"Unary({op.symbol}{operand.describe})"
  | .conditional condition whenTrue whenFalse =>
    s!"If({condition.describe}, {whenTrue.describe}, {whenFalse.describe})"
  | .index target position => s!"Index({target.describe}[{position.describe}])"
  | .superIndex position => s!"SuperIndex({position.describe})"
  | .selfRef => "Self"
  | .error message => s!"Error({message.describe})"
  | .importCode path => s!"Import({path.describe})"
  | .importText path => s!"ImportStr({path.describe})"

/-! ### Building -/

/-- A step that may append to an arena. -/
abbrev Build := StateM Arena

namespace Build

/-- Appends a node with its span. -/
def alloc (node : Node) (span : Span) : Build NodeId :=
  modifyGet fun arena =>
    let id := ⟨arena.nodes.size⟩
    (id, { arena with nodes := arena.nodes.push node, spans := arena.spans.push span })

/-- The slice that appending `count` entries to a table of size `start` makes; without
entries it is the empty slice. -/
def sliceOf {α : Type} (start count : Nat) : Slice α :=
  if count = 0 then .empty else ⟨start, count⟩

/-- Appends a list of expressions. -/
def pushList (entries : List NodeId) : Build (Slice NodeId) :=
  modifyGet fun arena => (sliceOf arena.lists.size entries.length,
    { arena with lists := arena.lists ++ entries })

/-- Appends a list of bindings. -/
def pushBinds (entries : List Bind) : Build (Slice Bind) :=
  modifyGet fun arena => (sliceOf arena.binds.size entries.length,
    { arena with binds := arena.binds ++ entries })

/-- Appends a list of parameter names. -/
def pushParams (entries : List Name) : Build (Slice Name) :=
  modifyGet fun arena => (sliceOf arena.params.size entries.length,
    { arena with params := arena.params ++ entries })

/-- Appends a list of field definitions. -/
def pushFields (entries : List FieldDef) : Build (Slice FieldDef) :=
  modifyGet fun arena => (sliceOf arena.fields.size entries.length,
    { arena with fields := arena.fields ++ entries })

/-! The following make one node each, from children that are there already. -/

/-- Makes a `local` expression. -/
def locals (binds : List Bind) (body : NodeId) (span : Span) : Build NodeId := do
  alloc (.locals (← pushBinds binds) body) span

/-- Makes a function. -/
def function (params : List Name) (body : NodeId) (span : Span) : Build NodeId := do
  alloc (.function (← pushParams params) body) span

/-- Makes a call. -/
def apply (target : NodeId) (arguments : List NodeId) (span : Span) :
    Build NodeId := do
  alloc (.apply target (← pushList arguments)) span

/-- Makes an array. -/
def array (elements : List NodeId) (span : Span) : Build NodeId := do
  alloc (.array (← pushList elements)) span

/-- Makes an object. -/
def object (asserts : List NodeId) (fields : List FieldDef) (span : Span) :
    Build NodeId := do
  let asserts ← pushList asserts
  let fields ← pushFields fields
  alloc (.object asserts fields) span

/-- Makes the definition of a field with a literal name; the name becomes a node of its
own. -/
def field (name : Name) (visibility : Visibility) (body : NodeId) : Build FieldDef := do
  return ⟨← alloc (.string name) .none, visibility, body, false⟩

/-- Makes the field of an object, from a literal name. -/
def indexField (target : NodeId) (name : Name) : Build NodeId := do
  alloc (.index target (← alloc (.string name) .none)) .none

/-- Makes the field of the objects further left, from a literal name. -/
def superField (name : Name) : Build NodeId := do
  alloc (.superIndex (← alloc (.string name) .none)) .none

end Build

/-- An expression together with the arena that holds it; a whole file is the code of its
root. -/
structure Code where
  arena : Arena
  root : NodeId
  deriving Inhabited

namespace Code

/-- The node of the expression. -/
def node (code : Code) : Node := code.arena.node code.root

/-- Where the expression stands. -/
def location (code : Code) : Location := code.arena.location code.root

/-- Another expression of the same file. -/
def sibling (code : Code) (id : NodeId) : Code := ⟨code.arena, id⟩

end Code

end Jsonnet
