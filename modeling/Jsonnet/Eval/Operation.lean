import Jsonnet.Session.State

/-!
# Operations

An operation is a single step on the state: counting, interning, making objects, thunks
and slots, asking for imports and compiled code, and failing. What a computation does
with the state it does by operations, so whatever all operations do, all computations do.
-/

namespace Jsonnet

/-- The kinds of steps that are counted. -/
inductive Step where
  | expression
  | thunk
  | functionCall
  | builtinCall
  deriving DecidableEq, Repr, Inhabited

/-- A single step on the state. -/
inductive Operation where
  | count (step : Step)
  /-- The string that a name stands for. -/
  | text (name : Name)
  | intern (s : String)
  /-- Interns several strings, whether or not there is room for them. -/
  | internAll (strings : List String)
  /-- Orders names by the strings they stand for. -/
  | sort (fields : List Name)
  /-- Makes an object of one literal. -/
  | literal (scope : Scope) (fields : List (Name × Field)) (asserts : List Member)
  /-- Makes the object in which `right` extends `left`. -/
  | combine (left right : Object)
  /-- Makes deferred values that are computed at most once. -/
  | share (suspensions : List Suspension)
  /-- Makes the environment in which some bindings see each other. -/
  | bindLocals (code : Code) (env : Env) (binds : List Bind)
  /-- What a slot is bound to. -/
  | slot (slot : SlotId)
  /-- The text of an import. -/
  | importText (directory path : String) (site : Location)
  /-- The deferred value of an import. -/
  | imported (directory : String) (path : Name) (site : Location)
  /-- The deferred value of an external variable. -/
  | external (name : Name) (given : External)
  /-- The deferred value of an argument of the program. -/
  | argument (name : Name) (given : External)
  /-- Fails with a run-time error raised at a location. -/
  | raise (cause : Cause) (site : Location)
  | fail (failure : Failure)

/-- The type of an operation's result. -/
@[reducible] def Operation.Result : Operation → Type
  | .count _ => Unit
  | .text _ => String
  | .intern _ => Name
  | .internAll _ | .sort _ => List Name
  | .literal .. | .combine .. => Object
  | .share _ => List Deferred
  | .bindLocals .. => Env
  | .slot _ | .imported .. | .external .. | .argument .. => Deferred
  | .importText .. => ImportedFile
  | .raise .. | .fail _ => Empty

/-- The outcome of a computation, and the state it is reached in. -/
abbrev Outcome (α : Type) := Except Failure α × State

/-- Counts a step. -/
def Counters.count (counters : Counters) : Step → Counters
  | .expression => { counters with expressions := counters.expressions + 1 }
  | .thunk => { counters with thunks := counters.thunks + 1 }
  | .functionCall => { counters with functionCalls := counters.functionCalls + 1 }
  | .builtinCall => { counters with builtinCalls := counters.builtinCalls + 1 }

namespace State

/-- The failure with a cause, raised at a location with the frames at this moment. -/
def failure (state : State) (cause : Cause) (site : Location) : Failure :=
  state.stack.failure cause site state.names

/-! ### Making objects, thunks and slots -/

/-- A new object, whose assertions are not checked yet. -/
def newObject (state : State) (object : ObjectId → Object) : Object × State :=
  (object ⟨state.checks.size⟩, { state with checks := state.checks.push .notChecked })

/-- Deferred values that are computed at most once. -/
def share (state : State) (suspensions : List Suspension) : List Deferred × State :=
  ((List.range' state.thunks.size suspensions.length).map fun index => .shared ⟨index⟩,
    { state with thunks := state.thunks ++ suspensions.map Cell.pending })

/-- The environment in which some bindings see each other. -/
def bindLocals (state : State) (code : Code) (env : Env) (binds : List Bind) :
    Env × State :=
  let (first, slots) := state.slots.reserve binds.length
  let state := { state with slots }
  let numbers := (List.range binds.length).map first.plus
  let inner := env.withScope (env.scope.bindSlots ((binds.map Bind.name).zip numbers))
  let (thunks, state) := state.share (binds.map fun bind =>
    .code (.thunk bind.name) inner (code.sibling bind.body))
  (inner, { state with slots := state.slots.fillAll (numbers.zip thunks) })

/-! ### Code from outside -/

/-- The text of an import, which the importer is asked for if its answer is not known. -/
def importText (state : State) (importer : Importer) (directory path : String)
    (site : Location) : Outcome ImportedFile :=
  let (answer, imports) := state.imports.resolve importer directory path
  let state := { state with imports }
  match answer with
  | .ok file => (.ok file, state)
  | .error e => (.error (state.failure (.importFailed e.message) site), state)

/-- The deferred value of a compiled program, evaluated in the base environment. A text
that was rejected fails when it is used; a front end that broke down fails at once. -/
def compile (state : State) (session : Session) (context : FrameContext)
    (file source : String) : Outcome Deferred :=
  let (compiled, names) := session.frontEnd state.names file source
  let state := { state with names }
  match compiled with
  | .program code =>
    (.ok (.shared ⟨state.thunks.size⟩), { state with
      thunks := state.thunks.push (.pending (.code context session.base code)) })
  | .rejected error => (.ok (.failed (.static error)), state)
  | .broken message => (.error (.breakdown message), state)

/-- The deferred value of an import. Its code is compiled when it is first imported. -/
def imported (state : State) (session : Session) (directory : String) (path : Name)
    (site : Location) : Outcome Deferred :=
  let pathText := state.names.lookup path
  match state.imports.code? directory pathText with
  | some code => (.ok code, state)
  | none =>
    match state.importText session.importer directory pathText site with
    | (.error failure, state) => (.error failure, state)
    | (.ok file, state) =>
      match state.compile session (.importing path) file.foundAt file.content with
      | (.error failure, state) => (.error failure, state)
      | (.ok code, state) =>
        (.ok code, { state with imports := state.imports.setCode directory pathText code })

/-- The deferred value of an external variable or an argument of the program. -/
def given (state : State) (session : Session) (external : External) (kind : String)
    (name : Name) (context : FrameContext) : Outcome Deferred :=
  match external with
  | .text value => (.ok (.ready (.string value)), state)
  | .code source =>
    state.compile session context s!"<{kind}:{state.names.lookup name}>" source

/-- The deferred value of an external variable. It is compiled when it is first used. -/
def external (state : State) (session : Session) (name : Name) (external : External) :
    Outcome Deferred :=
  match state.externals[name]? with
  | some value => (.ok value, state)
  | none =>
    match state.given session external "extvar" name (.external name) with
    | (.error failure, state) => (.error failure, state)
    | (.ok value, state) =>
      (.ok value, { state with externals := state.externals.insert name value })

end State

/-- What an operation does. -/
def Operation.apply (session : Session) (state : State) :
    (operation : Operation) → Outcome operation.Result
  | .count step => (.ok (), { state with counters := state.counters.count step })
  | .text name => (.ok (state.names.lookup name), state)
  | .intern s =>
    match state.names.tryIntern s with
    | .ok (name, names) => (.ok name, { state with names })
    | .error e => (.error (.breakdown e.message), state)
  | .internAll strings =>
    let (fields, names) := state.names.internAll strings
    (.ok fields, { state with names })
  | .sort fields => (.ok (Object.sortNames state.names fields), state)
  | .literal scope fields asserts =>
    let (object, state) := state.newObject fun id => .leaf ⟨id, scope, fields, asserts⟩
    (.ok object, state)
  | .combine left right =>
    let (object, state) := state.newObject fun id => .combine id left right
    (.ok object, state)
  | .share suspensions =>
    let (values, state) := state.share suspensions
    (.ok values, state)
  | .bindLocals code env binds =>
    let (inner, state) := state.bindLocals code env binds
    (.ok inner, state)
  | .slot id =>
    match state.slots.get? id with
    | some deferred => (.ok deferred, state)
    | none => (.error (.internal s!"unallocated slot {id.index}"), state)
  | .importText directory path site =>
    state.importText session.importer directory path site
  | .imported directory path site => state.imported session directory path site
  | .external name given => state.external session name given
  | .argument name given =>
    state.given session given "top-level-arg" name (.topLevelArgument name)
  | .raise cause site => (.error (state.failure cause site), state)
  | .fail failure => (.error failure, state)

end Jsonnet
