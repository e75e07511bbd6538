import Jsonnet.Eval.Program

/-!
# Running actions

Tasks are carried out by the actions that define them. Three kinds of tasks have results
that are kept: a thunk, the check of an object and a field are not computed where the
state knows their result, and are settled in the state when they end. A failure is not
kept.

Two ways of running an action are given. One is a recursion on the tasks; it says what
the outcome is. The other keeps the actions that wait for an outcome on a stack of its
own, so the depth of a program is not bounded by that of the machine it runs on. Both
come to the same outcome.
-/

namespace Jsonnet

/-! ### Kept results -/

/-- The result of a task that the state knows. -/
def Task.known? (session : Session) (state : State) : (task : Task) → Option task.Result
  | .force thunk =>
    match state.thunks[thunk.index]? with
    | some (.ready value) => some value
    | _ => none
  | .check object => if object.isSettled state then some () else none
  | .field object _ depth name _ =>
    if session.sharing then state.fields[object.fieldKey name depth]? else none
  | .evaluate .. | .call .. | .builtin .. | .readField .. | .document _ | .equal ..
  | .order .. | .program _ | .output _ => none

/-- What beginning a task changes. -/
def Task.begin (task : Task) (state : State) : State :=
  match task with
  | .check object => setCheck object .inProgress state
  | _ => state

/-- Keeps the result of a thunk. -/
def State.keepThunk (state : State) (thunk : ThunkId) (value : Value) : State :=
  { state with thunks := state.thunks.setIfInBounds thunk.index (.ready value) }

/-- Keeps the value of a field. -/
def State.keepField (state : State) (key : FieldKey) (value : Value) : State :=
  { state with fields := state.fields.insert key value }

/-- What the end of a task changes. An object whose check has failed is unchecked again. -/
def Task.settle (session : Session) (state : State) :
    (task : Task) → Except Failure task.Result → State
  | .force thunk, .ok value => if session.sharing then state.keepThunk thunk value else state
  | .check object, outcome =>
    setCheck object (if outcome.isOk then .passed else .notChecked) state
  | .field object _ depth name _, .ok value =>
    if session.sharing then state.keepField (object.fieldKey name depth) value else state
  | _, _ => state

/-! ### Carrying out tasks -/

/-- The action that computes a thunk. -/
def computeThunk (state : State) (thunk : ThunkId) : Action Value :=
  match state.thunks[thunk.index]? with
  | some (.pending suspension) => suspension.run
  | some (.ready value) => return value
  | none => Action.fail (.internal "thunk without a cell")

/-- The action that carries out a task. -/
def Task.action (state : State) : (task : Task) → Action task.Result
  | .evaluate code env => evaluateCode code env
  | .force thunk => computeThunk state thunk
  | .call function arguments site => callFunction function arguments site
  | .builtin b arguments => applyBuiltin b arguments
  | .check object => checkAssertions object object.assertions
  | .readField object minDepth name site => Jsonnet.readField object minDepth name site
  | .field object leaf depth name site => computeField object leaf depth name site
  | .document value => computeDocument value
  | .equal x y => computeEqual x y
  | .order operator x y => computeOrder operator x y
  | .program code => computeProgram code
  | .output code => computeOutput code

/-- The state inside a frame; a failure if there is no room for the frame. -/
def State.enter (state : State) : Option Frame → Except Failure State
  | none => .ok state
  | some frame =>
    match state.stack.push? frame with
    | none => .error (state.failure (.stackOverflow state.stack.limit) frame.location)
    | some stack => .ok { state with stack }

/-- The state outside the innermost frame, if there is a frame. -/
def State.leave (state : State) : Option Frame → State
  | none => state
  | some _ => { state with stack := state.stack.pop }

/-- Runs a computation with a way of carrying out tasks; no outcome if some task has
none. -/
def Progress.resolve {α : Type} (session : Session)
    (carryOut : (task : Task) → State → Option (Outcome task.Result)) :
    Progress α → State → Option (Outcome α)
  | .finished result, state => some (.ok result, state)
  | .step operation next, state =>
    match operation.apply session state with
    | (.ok result, state) => (next result).resolve session carryOut state
    | (.error failure, state) => some (.error failure, state)
  | .wait frame? task next, state =>
    match state.enter frame? with
    | .error failure => some (.error failure, state)
    | .ok state =>
      match carryOut task state with
      | none => none
      | some (.ok result, state) =>
        (next result).resolve session carryOut (state.leave frame?)
      | some (.error failure, state) => some (.error failure, state.leave frame?)

/-- Carries out a task by recursion, with tasks nested `fuel` deep at most. -/
def Task.perform (session : Session) : Nat → (task : Task) → State → Option (Outcome task.Result)
  | 0, _, _ => none
  | fuel + 1, task, state =>
    match task.known? session state with
    | some result => some (.ok result, state)
    | none =>
      match (task.action state session).resolve session (Task.perform session fuel)
          (task.begin state) with
      | none => none
      | some (outcome, state) => some (outcome, task.settle session state outcome)

/-- The computations that wait while a task is carried out: the first for the outcome of
`task`, inside a frame if there is one, each other one for that of the task before it,
and the last is that of `root`. -/
inductive Waiting (root : Task) : Task → Type where
  | done : Waiting root root
  | computation {task above : Task} (frame? : Option Frame)
      (next : task.Result → Progress above.Result) (rest : Waiting root above) :
      Waiting root task

/-- Carries out a task in `fuel` steps at most. A step takes an operation, begins the task
that a computation waits for, or hands an outcome on. -/
def Progress.drive (session : Session) {root task : Task} (fuel : Nat)
    (progress : Except Failure (Progress task.Result)) (state : State)
    (waiting : Waiting root task) : Option (Outcome root.Result) :=
  match fuel with
  | 0 => none
  | fuel + 1 =>
    match progress with
    | .ok (.step operation next) =>
      match operation.apply session state with
      | (.ok result, state) => Progress.drive session fuel (.ok (next result)) state waiting
      | (.error failure, state) => Progress.drive session fuel (.error failure) state waiting
    | .ok (.wait frame? inner next) =>
      match state.enter frame? with
      | .error failure => Progress.drive session fuel (.error failure) state waiting
      | .ok state =>
        match inner.known? session state with
        | some result =>
          Progress.drive session fuel (.ok (next result)) (state.leave frame?) waiting
        | none =>
          Progress.drive session fuel (.ok (inner.action state session)) (inner.begin state)
            (.computation frame? next waiting)
    | .ok (.finished result) =>
      let state := task.settle session state (.ok result)
      match waiting with
      | .done => some (.ok result, state)
      | .computation frame? next rest =>
        Progress.drive session fuel (.ok (next result)) (state.leave frame?) rest
    | .error failure =>
      let state := task.settle session state (.error failure)
      match waiting with
      | .done => some (.error failure, state)
      | .computation frame? _ rest =>
        Progress.drive session fuel (.error failure) (state.leave frame?) rest

/-- Carries out a task in `fuel` steps at most. -/
def Task.run (session : Session) (fuel : Nat) (task : Task) (state : State) :
    Option (Outcome task.Result) :=
  match task.known? session state with
  | some result => some (.ok result, state)
  | none => Progress.drive session fuel (.ok (task.action state session)) (task.begin state) .done

/-- Runs an action, each of its tasks in `fuel` steps at most. -/
def Action.run {α : Type} (action : Action α) (session : Session) (fuel : Nat)
    (state : State) : Option (Outcome α) :=
  (action session).resolve session (Task.run session fuel) state

/-! ### Texts -/

/-- Compiles a text and runs it in a new session. The interner is handed on from one
text to the next. -/
def Setup.evaluateSnippet (setup : Setup) (names : Interner) (fuel : Nat)
    (file source : String) : Option (Except Failure String × Interner) :=
  match setup.frontEnd names file source with
  | (.rejected error, names) => some (.error (.static error), names)
  | (.broken message, names) => some (.error (.breakdown message), names)
  | (.program code, names) =>
    let (session, state) := setup.start names
    (code.output.run session fuel state).map fun (outcome, state) => (outcome, state.names)

end Jsonnet
