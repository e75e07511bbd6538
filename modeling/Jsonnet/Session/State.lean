import Jsonnet.Session.Settings
import Jsonnet.Session.Slots
import Jsonnet.Value.Object

/-!
# Sessions

A session is what is fixed while programs run one after another: the settings, prepared
for evaluation, and the standard library. The state is what changes: the interner, the
frames, the stores of thunks, slots and assertion states, and what has been computed
once and is kept.
-/

namespace Jsonnet

/-- How often each kind of step was taken. -/
structure Counters where
  expressions : Nat
  thunks : Nat
  functionCalls : Nat
  builtinCalls : Nat
  deriving DecidableEq, Repr, Inhabited

namespace Counters

/-- The counters before the first step. -/
def zero : Counters := ⟨0, 0, 0, 0⟩

/-- The report on the counters. -/
def report (counters : Counters) : String :=
  "Evaluation profile:\n" ++
    s!"  Expressions evaluated: {counters.expressions}\n" ++
    s!"  Thunks forced:         {counters.thunks}\n" ++
    s!"  Function calls:        {counters.functionCalls}\n" ++
    s!"  Builtin calls:         {counters.builtinCalls}"

end Counters

/-- A field of an object as the literal at some depth defines it. -/
structure FieldKey where
  object : ObjectId
  name : Name
  depth : Nat
  deriving DecidableEq, Hashable, Repr, Inhabited

/-- What changes while programs run. -/
structure State where
  names : Interner
  stack : CallStack
  thunks : Array Cell
  slots : Slots
  /-- The states of assertions, by the number of the object. -/
  checks : Array AssertionState
  /-- The values of fields that have been read. -/
  fields : Std.HashMap FieldKey Value
  imports : ImportCache Deferred
  /-- The external variables that have been used. -/
  externals : Std.HashMap Name Deferred
  counters : Counters
  deriving Inhabited

/-- The text that shows settings and the sizes of what a state holds. -/
def State.describe (state : State) (settings : Settings) : String :=
  s!"Interpreter \x7b config: {settings.describe}, stack_depth: {state.stack.depth}, " ++
    s!"slots: {state.slots.size}, cached_fields: {state.fields.size}, " ++
    s!"imports: {state.imports.describe}, .. \x7d"

/-- What is fixed while programs run. -/
structure Session where
  settings : Settings
  sharing : Bool
  importer : Importer
  frontEnd : FrontEnd
  externals : List (Name × External)
  arguments : List (Name × External)
  /-- The object of the standard library. -/
  library : Object
  /-- The name under which every file finds the library. -/
  libraryName : Name
  /-- The names of the thunks that no name is bound to. -/
  argumentName : Name
  elementName : Name
  rightOperandName : Name

namespace Session

/-- The environment of a file: the library is in scope and there is no object. -/
def base (session : Session) : Env :=
  ⟨Scope.empty.bindValues [(session.libraryName, .ready (.object session.library))], none, 0⟩

end Session

/-- The fields of the standard library: one hidden field for each function. -/
def libraryFields (names : Interner) :
    List LibraryFunction → List (Name × Field) × Interner
  | [] => ([], names)
  | f :: rest =>
    let (name, names) := names.intern f.name
    let (fields, names) := libraryFields names rest
    ((name, ⟨.hidden, .ready (.function (.builtin (.library f)))⟩) :: fields, names)

/-- The external values under interned names. -/
def internExternals (names : Interner) :
    List (String × External) → List (Name × External) × Interner
  | [] => ([], names)
  | (name, value) :: rest =>
    let (name, names) := names.intern name
    let (values, names) := internExternals names rest
    ((name, value) :: values, names)

/-- The values with one of them given anew: it moves to the end. -/
def giveAnew (values : List (Name × External)) (entry : Name × External) :
    List (Name × External) :=
  values.filter (fun old => old.1 != entry.1) ++ [entry]

/-- Prepares a session over an interner, with its first state. -/
def Setup.start (setup : Setup) (names : Interner) : Session × State :=
  let (fields, names) := libraryFields names LibraryFunction.all
  let (libraryName, names) := names.intern "std"
  let (externals, names) := internExternals names setup.externals
  let (arguments, names) := internExternals names setup.arguments
  let (argumentName, names) := names.intern "arg"
  let (elementName, names) := names.intern "array_element"
  let (rightOperandName, names) := names.intern "rhs"
  ({ settings := setup.settings
     sharing := setup.sharing
     importer := setup.importer
     frontEnd := setup.frontEnd
     externals
     arguments := arguments.foldl giveAnew []
     library := .leaf ⟨⟨0⟩, .empty, fields, []⟩
     libraryName
     argumentName
     elementName
     rightOperandName },
   { names
     stack := .new setup.settings.maxStack
     thunks := #[]
     slots := .empty
     checks := #[.notChecked]
     fields := ∅
     imports := .empty
     externals := ∅
     counters := .zero })

end Jsonnet
