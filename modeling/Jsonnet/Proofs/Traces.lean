import Jsonnet.Proofs.Holding

/-!
# Traces of run-time errors

A run-time error is raised by an operation, or there is no room for a frame. Its backtrace is made
there, of the site and of the frames of the tasks that are going on, and none of the tasks that it
passes on its way out changes it.
-/

namespace Jsonnet

/-! ### Faults -/

/-- How a run-time error comes about: it is raised at a site, or a frame is refused for want of
room. -/
inductive Fault where
  | raised (cause : Cause) (site : Location)
  | refused (frame : Frame)

namespace Fault

/-- Where a fault is located. -/
def site : Fault → Location
  | raised _ site => site
  | refused frame => frame.location

/-- The cause of the error, where there may be `limit` frames. -/
def cause (limit : Nat) : Fault → Cause
  | raised cause _ => cause
  | refused _ => .stackOverflow limit

/-- The frames that the backtrace tells about: the site of the fault, if it is known, under the
context of the innermost frame, and the frames that are live. -/
def traced (fault : Fault) (live : List Frame) : List Frame :=
  let context := (live.head?.map Frame.context).getD .main
  (if fault.site.isUnknown then [] else [⟨fault.site, context⟩]) ++ live

/-- The failure that a fault is in a state. -/
def failure (fault : Fault) (s : State) : Failure :=
  s.failure (fault.cause s.stack.limit) fault.site

theorem length_traced (fault : Fault) (live : List Frame) :
  (fault.traced live).length = live.length + if fault.site.isUnknown then 0 else 1
  := by
  rw [traced, List.length_append, Nat.add_comm]
  split <;> rfl

end Fault

/-- The run-time errors that operations raise: what they are told to raise, and what the importer
refuses. -/
inductive Operation.Raises (session : Session) (a : State) :
    Operation → Cause → Location → Prop where
  | raise (cause : Cause) (site : Location) : Raises session a (.raise cause site) cause site
  | importText {directory path : String} {e : ImportError}
      (refuses : (a.imports.resolve session.importer directory path).1 = .error e)
      (site : Location) :
    Raises session a (.importText directory path site) (.importFailed e.message) site
  | imported {directory : String} {path : Name} {e : ImportError}
      (missing : a.imports.code? directory (a.names.lookup path) = none)
      (refuses : (a.imports.resolve session.importer directory (a.names.lookup path)).1 = .error e)
      (site : Location) :
    Raises session a (.imported directory path site) (.importFailed e.message) site

/-- A fault in a computation, with the frames that are live when it comes about, the innermost
first, and the state at this moment. A frame is live from when its task is about to be carried out
until that has ended. -/
inductive Progress.Raises (session : Session) :
    {α : Type} → Progress α → State → Fault → List Frame → State → Prop where
  | operation {α : Type} {operation : Operation} {next : operation.Result → Progress α} {a : State}
      {cause : Cause} {site : Location} (raises : operation.Raises session a cause site) :
    Raises session (.step operation next) a (.raised cause site) [] a
  | full {α : Type} {frame : Frame} {task : Task} {next : task.Result → Progress α} {a : State}
      (full : a.stack.room = 0) :
    Raises session (.wait (some frame) task next) a (.refused frame) [] a
  | step {α : Type} {operation : Operation} {next : operation.Result → Progress α} {a b s : State}
      {result : operation.Result} {fault : Fault} {live : List Frame}
      (taken : operation.apply session a = (.ok result, b))
      (later : (next result).Raises session b fault live s) :
    Raises session (.step operation next) a fault live s
  | inside {α : Type} {frame? : Option Frame} {task : Task} {next : task.Result → Progress α}
      {a b s : State} {fault : Fault} {live : List Frame} (enters : a.enter frame? = .ok b)
      (unknown : task.known? session b = none)
      (inner : (task.action b session).Raises session (task.begin b) fault live s) :
    Raises session (.wait frame? task next) a fault (live ++ frame?.toList) s
  | later {α : Type} {frame? : Option Frame} {task : Task} {next : task.Result → Progress α}
      {a b c s : State} {result : task.Result} {fault : Fault} {live : List Frame} {fuel : Nat}
      (enters : a.enter frame? = .ok b)
      (ends : task.perform session fuel b = some (.ok result, c))
      (rest : (next result).Raises session (c.leave frame?) fault live s) :
    Raises session (.wait frame? task next) a fault live s

section

variable {session : Session} {α : Type} {p : Progress α} {a b s : State} {fault : Fault}
  {live : List Frame} {fuel : Nat}

/-! ### Failing -/

/-- Whether a computation comes to nothing but a failure. -/
def Progress.Fails (session : Session) {α : Type} (p : Progress α) (a : State)
    (failure : Failure) : Prop :=
  ∀ fuel outcome b, p.resolve session (Task.perform session fuel) a = some (outcome, b) →
    outcome = .error failure

/-- Whether a task comes to nothing but a failure. -/
def Task.Fails (session : Session) (task : Task) (a : State) (failure : Failure) : Prop :=
  ∀ fuel outcome b, task.perform session fuel a = some (outcome, b) → outcome = .error failure

namespace Task.Fails

variable {task : Task} {failure : Failure}

theorem of_perform (h : task.perform session fuel a = some (.error failure, b)) :
  task.Fails session a failure
  := by
  intro fuel' outcome c h'
  cases Task.perform_unique h h'
  rfl

/-- A task fails if its action does. -/
theorem of_action (unknown : task.known? session a = none)
    (h : (task.action a session).Fails session (task.begin a) failure) :
  task.Fails session a failure
  := by
  rintro (_ | fuel) outcome c run
  · cases run
  · rw [perform_unknown unknown, Option.map_eq_some_iff] at run
    obtain ⟨⟨_, d⟩, resolved, heq⟩ := run
    cases heq
    exact h _ _ _ resolved

end Task.Fails

namespace Progress.Fails

variable {failure : Failure}

theorem stop {operation : Operation} {next : operation.Result → Progress α}
    (taken : operation.apply session a = (.error failure, b)) :
  (Progress.step operation next).Fails session a failure
  := by
  intro fuel outcome c run
  rw [resolve, taken] at run
  cases run
  rfl

theorem step {operation : Operation} {next : operation.Result → Progress α} {r : operation.Result}
    (taken : operation.apply session a = (.ok r, b)) (h : (next r).Fails session b failure) :
  (Progress.step operation next).Fails session a failure
  := by
  intro fuel outcome c run
  rw [resolve, taken] at run
  exact h fuel outcome c run

variable {frame? : Option Frame} {task : Task} {next : task.Result → Progress α}

theorem refused (enters : a.enter frame? = .error failure) :
  (Progress.wait frame? task next).Fails session a failure
  := by
  intro fuel outcome c run
  rw [resolve, enters] at run
  cases run
  rfl

/-- The failure of a task is that of the computation that waits for it. -/
theorem wait (enters : a.enter frame? = .ok b) (h : task.Fails session b failure) :
  (Progress.wait frame? task next).Fails session a failure
  := by
  intro fuel outcome c run
  rw [resolve, enters] at run
  dsimp only at run
  split at run
  case h_1 => cases run
  case h_2 ends => cases h _ _ _ ends
  case h_3 ends =>
    cases h _ _ _ ends
    cases run
    rfl

theorem later {c : State} {r : task.Result} (enters : a.enter frame? = .ok b)
    (ends : task.perform session fuel b = some (.ok r, c))
    (h : (next r).Fails session (c.leave frame?) failure) :
  (Progress.wait frame? task next).Fails session a failure
  := by
  intro fuel' outcome d run
  rw [resolve, enters] at run
  dsimp only at run
  split at run
  case h_1 => cases run
  case h_2 ends' =>
    cases Task.perform_unique ends ends'
    exact h fuel' outcome d run
  case h_3 ends' => cases Task.perform_unique ends ends'

end Progress.Fails

/-! ### Live frames -/

/-- The frames inside one that has been entered, if there is one. -/
theorem State.frames_of_enter {frame? : Option Frame} (h : a.enter frame? = .ok b) :
  b.stack.frames = frame?.toList ++ a.stack.frames
  := by
  cases frame? with
  | none =>
    cases h
    rfl
  | some frame =>
    rw [enter, CallStack.push?] at h
    rcases hroom : a.stack.room with _ | room <;> rw [hroom] at h <;> cases h
    rfl

/-- What the importer refuses fails in the state that it is asked in. -/
theorem State.importText_error {importer : Importer} {directory path : String} {e : ImportError}
    (refuses : (a.imports.resolve importer directory path).1 = .error e) (site : Location) :
  ∃ c, a.importText importer directory path site
    = (.error (a.failure (.importFailed e.message) site), c)
  := by
  use { a with imports := (a.imports.resolve importer directory path).2 }
  rw [importText]
  simp only [refuses]
  rfl

theorem Operation.Raises.apply_eq {operation : Operation} {cause : Cause} {site : Location}
    (h : operation.Raises session a cause site) :
  ∃ c, operation.apply session a = (.error (a.failure cause site), c)
  := by
  cases h with
  | raise => exact ⟨a, rfl⟩
  | importText refuses => exact State.importText_error refuses site
  | imported missing refuses =>
    obtain ⟨c, refused⟩ := State.importText_error refuses site
    use c
    rw [apply, State.imported]
    simp only [missing, refused]

/-- There is no room where a frame is refused. -/
theorem State.enter_full {frame : Frame} (full : a.stack.room = 0) :
  a.enter (some frame) = .error ((Fault.refused frame).failure a)
  := by
  rw [enter, CallStack.push?, full]
  rfl

namespace Progress.Raises

/-- The frames on the stack where a fault comes about are those that are live, and those that were
there in the beginning. There may be as many as in the beginning. -/
theorem stack (h : p.Raises session a fault live s) :
  s.stack.frames = live ++ a.stack.frames ∧ s.stack.limit = a.stack.limit
  := by
  induction h with
  | operation | full => exact ⟨rfl, rfl⟩
  | step taken _ ih =>
    rw [(Operation.grows_of_apply taken).stack] at ih
    exact ih
  | inside enters _ _ ih =>
    rw [Task.begin_stack, State.frames_of_enter enters, State.limit_of_enter enters,
      ← List.append_assoc] at ih
    exact ih
  | later enters ends _ ih =>
    rw [Task.stack_leave enters ends] at ih
    exact ih

/-- A frame is refused only where there is no room. -/
theorem room {frame : Frame} (h : p.Raises session a (.refused frame) live s) :
  s.stack.room = 0
  := by
  generalize hfault : Fault.refused frame = fault at h
  induction h with
  | operation => cases hfault
  | full full => exact full
  | step _ _ ih | inside _ _ _ ih | later _ _ _ ih => exact ih hfault

/-- A computation in which a fault comes about fails with what the fault was. -/
theorem fails (h : p.Raises session a fault live s) :
  p.Fails session a (fault.failure s)
  := by
  induction h with
  | operation raises =>
    obtain ⟨c, taken⟩ := raises.apply_eq
    exact .stop taken
  | full full => exact .refused (State.enter_full full)
  | step taken _ ih => exact .step taken ih
  | inside enters unknown _ ih => exact .wait enters (.of_action unknown ih)
  | later enters ends _ ih => exact .later enters ends ih

end Progress.Raises

/-! ### The faults behind errors -/

/-- The standard that asks of the failures that are kept in place of values to be no run-time
errors. -/
def Standard.reporting : Standard :=
  { Standard.any with
    failure := fun f => f.cause? = none
    reported := id }

theorem Standard.reporting_lax :
  Standard.reporting.Lax
  := ⟨fun _ => trivial, fun _ => trivial, fun _ => trivial⟩

/-- A text that cannot be compiled is no run-time error. -/
theorem State.compile_error {context : FrameContext} {file source : String} {failure : Failure}
    (h : a.compile session context file source = (.error failure, b)) :
  failure.cause? = none
  := by
  rcases hcompile : session.frontEnd a.names file source with ⟨compiled, names⟩
  rw [compile, hcompile] at h
  cases compiled <;> cases h
  rfl

theorem State.given_error {given : External} {kind : String} {name : Name} {context : FrameContext}
    {failure : Failure} (h : a.given session given kind name context = (.error failure, b)) :
  failure.cause? = none
  := by
  cases given with
  | text value => cases h
  | code source => exact compile_error h

/-- The text of an import fails only if the importer refuses. -/
theorem State.importText_fails {importer : Importer} {directory path : String} {site : Location}
    {failure : Failure} (h : a.importText importer directory path site = (.error failure, b)) :
  ∃ e, (a.imports.resolve importer directory path).1 = .error e ∧
    failure = a.failure (.importFailed e.message) site
  := by
  rcases refuses : (a.imports.resolve importer directory path).1 with e | file
  · obtain ⟨c, refused⟩ := importText_error refuses site
    cases refused.symm.trans h
    exact ⟨e, rfl, rfl⟩
  · rw [importText] at h
    simp only [refuses] at h
    cases h

/-- Whether a failure is no run-time error, or one that an operation raises other than for want of
room. -/
def Operation.Accounts (session : Session) (a : State) (operation : Operation) (failure : Failure) :
    Prop :=
  failure.cause? = none ∨ ∃ cause site, operation.Raises session a cause site ∧
    failure = a.failure cause site ∧ failure.isOverflow = false

/-- An operation that is given failures in order only does not come to a run-time error unless it
raises that. -/
theorem Operation.accounts {made : List Object} {operation : Operation}
    (takes : operation.Takes .reporting session made) {failure : Failure}
    (taken : operation.apply session a = (.error failure, b)) :
  operation.Accounts session a failure
  := by
  cases operation with
  | intern s =>
    rw [apply] at taken
    split at taken <;> cases taken
    exact .inl rfl
  | slot id =>
    rw [apply] at taken
    split at taken <;> cases taken
    exact .inl rfl
  | importText directory path site =>
    obtain ⟨e, refuses, rfl⟩ := State.importText_fails taken
    exact .inr ⟨_, _, .importText refuses site, rfl, rfl⟩
  | imported directory path site =>
    rw [apply, State.imported] at taken
    split at taken
    case h_1 => cases taken
    case h_2 missing =>
      split at taken
      case h_1 fails =>
        cases taken
        obtain ⟨e, refuses, rfl⟩ := State.importText_fails fails
        exact .inr ⟨_, _, .imported missing refuses site, rfl, rfl⟩
      case h_2 =>
        split at taken
        case h_1 fails =>
          cases taken
          exact .inl (State.compile_error fails)
        case h_2 => cases taken
  | external name given =>
    rw [apply, State.external] at taken
    split at taken
    case h_1 => cases taken
    case h_2 =>
      split at taken
      case h_1 fails =>
        cases taken
        exact .inl (State.given_error fails)
      case h_2 => cases taken
  | argument name given => exact .inl (State.given_error taken)
  | raise cause site =>
    cases taken
    refine .inr ⟨_, _, .raise cause site, rfl, ?_⟩
    cases cause <;> exact takes
  | fail failure =>
    cases taken
    exact .inl takes
  | _ => cases taken

/-- Whether a failure is a fault of a computation; it is for want of room only if a frame is
refused. -/
def Progress.Blames (session : Session) {α : Type} (p : Progress α) (a : State)
    (failure : Failure) : Prop :=
  ∃ fault live s, p.Raises session a fault live s ∧ failure = fault.failure s ∧
    (failure.isOverflow = true → ∃ frame, fault = .refused frame)

/-- Where a frame is not entered, it is refused. -/
theorem State.refused_of_enter {frame? : Option Frame} {failure : Failure}
    (h : a.enter frame? = .error failure) :
  ∃ frame, frame? = some frame ∧ a.stack.room = 0
  := by
  cases frame? with
  | none => cases h
  | some frame =>
    refine ⟨frame, rfl, ?_⟩
    rw [enter, CallStack.push?] at h
    rcases hroom : a.stack.room with _ | room
    · rfl
    · rw [hroom] at h
      cases h

/-- What has to be shown of tasks for the run-time errors of computations to be faults. -/
def Task.Blames (session : Session) (fuel : Nat) : Prop :=
  ∀ {task : Task} {made : List Object} {a b : State} {failure : Failure},
    task.Takes .reporting session made → a.IsProper .reporting session .onlyEmpty made →
    task.perform session fuel a = some (.error failure, b) → failure.cause? ≠ none →
    task.known? session a = none ∧ (task.action a session).Blames session (task.begin a) failure

theorem Progress.blames_of_tasks (tasks : Task.Blames session fuel) {R : List Object → α → Prop}
    {made : List Object} (makes : p.Makes .reporting session R made)
    (proper : a.IsProper .reporting session .onlyEmpty made) {failure : Failure}
    (run : p.resolve session (Task.perform session fuel) a = some (.error failure, b))
    (runtime : failure.cause? ≠ none) :
  p.Blames session a failure
  := by
  have supplies := Standard.reporting_lax.supplies session
  induction p generalizing made a with
  | finished result => cases run
  | step operation next ih =>
    rw [resolve] at run
    split at run
    case h_1 taken =>
      obtain ⟨more, -, proper', makes'⟩ := makes.after_step (supplies _) proper taken (.refl _)
      obtain ⟨fault, live, s, raises, eq⟩ := ih _ makes' proper' run
      exact ⟨fault, live, s, .step taken raises, eq⟩
    case h_2 taken =>
      cases run
      cases makes with
      | step takes =>
        obtain quiet | ⟨cause, site, raises, rfl, room⟩ := Operation.accounts takes taken
        · exact absurd quiet runtime
        · refine ⟨.raised cause site, [], _, .operation raises, rfl, ?_⟩
          intro overflow
          cases room.symm.trans overflow
  | wait frame? task next ih =>
    rw [resolve] at run
    split at run
    case h_1 enters =>
      cases run
      obtain ⟨frame, rfl, full⟩ := State.refused_of_enter enters
      cases (State.enter_full full).symm.trans enters
      exact ⟨.refused frame, [], _, .full full, rfl, fun _ => ⟨frame, rfl⟩⟩
    case h_2 enters =>
      split at run
      case h_1 => cases run
      case h_2 ends =>
        obtain ⟨more, -, proper', makes'⟩ :=
          makes.after_task (supplies _) proper (.of_lax Standard.reporting_lax _ _) enters ends
            (.refl _)
        obtain ⟨fault, live, s, raises, eq⟩ := ih _ makes' proper' run
        exact ⟨fault, live, s, .later enters ends raises, eq⟩
      case h_3 ends =>
        cases run
        cases makes with
        | wait takes =>
          obtain ⟨unknown, fault, live, s, raises, eq⟩ :=
            tasks takes (proper.enter enters) ends runtime
          exact ⟨fault, _, s, .inside enters unknown raises, eq⟩

/-- The run-time errors of tasks are faults. -/
theorem Task.blames (session : Session) (fuel : Nat) :
  Task.Blames session fuel
  := by
  induction fuel with
  | zero =>
    intro task made a b failure takes proper run
    cases run
  | succ fuel ih =>
    intro task made a b failure takes proper run runtime
    rw [perform] at run
    split at run
    case h_1 => cases run
    case h_2 unknown =>
      split at run
      case h_1 => cases run
      case h_2 resolved =>
        cases run
        exact ⟨unknown, Progress.blames_of_tasks ih (takes.makes proper) (proper.begin task)
          resolved runtime⟩

/-! ### Errors on their way out -/

/-- What a task fails with at some moment of a computation, the computation fails with. -/
theorem Progress.Moment.fails {above : List Task} {task : Task}
    (h : p.Moment session a above task s) {failure : Failure}
    (fails : task.Fails session s failure) :
  p.Fails session a failure
  := by
  induction h with
  | step taken _ ih => exact .step taken (ih fails)
  | asked enters => exact .wait enters fails
  | inside enters unknown _ ih => exact .wait enters (.of_action unknown (ih fails))
  | later enters ends _ ih => exact .later enters ends (ih fails)

/-! ### Calls -/

/-- Between the calls of a client the stack is empty. -/
theorem Session.History.stack_eq {names : Interner} {limit : Nat} {calls : List (Call × State)}
    {values : List Value} (h : session.History (.new names limit) calls a values) :
  a.stack = .new limit
  := by
  induction h with
  | start => rfl
  | names _ _ ih => exact ih
  | call _ _ run ih => rw [Action.stack_eq run, ih]

/-- A run-time error that a call of a client comes to is a fault in the call. -/
theorem Session.History.blames {names : Interner} (prepared : session.Prepared names) {limit : Nat}
    {calls : List (Call × State)} {values : List Value}
    (h : session.History (.new names limit) calls a values) {call : Call} (uses : call.Uses values)
    {failure : Failure} (run : call.action.run session fuel a = some (.error failure, b))
    (runtime : failure.cause? ≠ none) :
  (call.action session).Blames session a failure
  := by
  have lax := Standard.reporting_lax
  obtain ⟨made, proper, hvalues⟩ :=
    h.proper prepared (fun _ _ => trivial) (Interner.onlyEmpty_le names) (lax.supplies session _)
      (fun c _ => lax.meets c.1) (fun _ _ => .of_lax lax _ _) (.refl _)
  obtain ⟨fuel, resolved⟩ := Action.run_iff.mp ⟨fuel, run⟩
  exact Progress.blames_of_tasks (Task.blames session fuel)
    (uses.makes_proper proper.library hvalues (lax.meets call)) proper resolved runtime

/-- The outermost of the live frames is the frame that a computation consists in, if there is room
for that. -/
theorem Progress.Raises.getLast?_eq {frame : Frame} {task : Task}
    (h : (Progress.wait (some frame) task .finished).Raises session a fault live s)
    (room : 0 < a.stack.room) :
  live.getLast? = some frame
  := by
  cases h with
  | full full => exact absurd full room.ne'
  | inside => exact List.getLast?_concat
  | later _ _ rest => cases rest

/-- The run-time errors of programs have truthful backtraces. Whatever a client called before, and
whatever that came to: a run-time error that a program comes to is a fault in it. The backtrace tells
about the site of the fault, if it is known, and then about exactly the frames that were live, of
which there are no more than the limit and of which the outermost is that of the program, if there is
room for one. Where the error is that the stack overflows, a frame was refused and the limit is
reached. Whatever task of the program fails fails with this error: nothing changes it on its way
out. -/
theorem Session.History.traces_truthful {names : Interner} (prepared : session.Prepared names)
    {limit : Nat} {calls : List (Call × State)} {values : List Value}
    (h : session.History (.new names limit) calls a values) {call : Call} {code : Code}
    (evaluates : call = .evaluate code ∨ call = .evaluateValue code) {cause : Cause}
    {trace? : Option Backtrace}
    (run : call.action.run session fuel a = some (.error (.runtime cause trace?), b)) :
  ∃ fault live s trace, (call.action session).Raises session a fault live s ∧
    cause = fault.cause limit ∧ trace? = some trace ∧
    trace.lines = (fault.traced live).map (Frame.traceLine s.names) ∧
    trace.size ≤ limit + 1 ∧
    (1 ≤ limit → live.getLast? = some ⟨code.location, .main⟩) ∧
    (∀ n, cause = .stackOverflow n → n = limit ∧ ∃ frame, fault = .refused frame ∧
      trace.size = limit + if frame.location.isUnknown then 0 else 1) ∧
    (∀ fault' live' s', (call.action session).Raises session a fault' live' s' →
      fault'.failure s' = .runtime cause trace?) ∧
    ∀ above task t fuel' failure c, (call.action session).Moment session a above task t →
      task.run session fuel' t = some (.error failure, c) → failure = .runtime cause trace?
  := by
  have uses : call.Uses values := by obtain rfl | rfl := evaluates <;> trivial
  obtain ⟨fault, live, s, raises, heq, overflow⟩ := h.blames prepared uses run nofun
  have empty := h.stack_eq
  obtain ⟨frames, top⟩ := raises.stack
  rw [empty] at frames top
  rw [CallStack.new, List.append_nil] at frames
  replace top : s.stack.limit = limit := top.trans (Nat.zero_add limit)
  have count : live.length + s.stack.room = limit := by rw [← frames, ← top]; rfl
  obtain ⟨rfl, rfl⟩ := Failure.runtime.inj heq
  have size : (s.stack.capture fault.site s.names).size
      = live.length + if fault.site.isUnknown then 0 else 1 := by
    rw [← frames, ← Fault.length_traced, Backtrace.size]
    exact List.length_map _
  obtain ⟨fuel, resolved⟩ := Action.run_iff.mp ⟨fuel, run⟩
  refine ⟨fault, live, s, _, raises, by rw [top], rfl, by rw [← frames]; rfl, ?size, ?last, ?overflow,
    ?faults, ?tasks⟩
  case size =>
    rw [size]
    split <;> omega
  case last =>
    intro positive
    have room : 0 < a.stack.room := by rwa [empty]
    obtain rfl | rfl := evaluates <;> exact raises.getLast?_eq room
  case overflow =>
    intro n full
    obtain ⟨frame, rfl⟩ := overflow (by rw [full]; rfl)
    have full : Cause.stackOverflow s.stack.limit = .stackOverflow n := full
    refine ⟨(Cause.stackOverflow.inj full).symm.trans top, frame, rfl, ?_⟩
    rw [size, ← count, raises.room]
    rfl
  case faults =>
    intro fault' live' s' raises'
    exact (Except.error.inj (raises'.fails _ _ _ resolved)).symm
  case tasks =>
    intro above task t fuel' failure c moment fails
    obtain ⟨_, fails⟩ := Task.run_iff.mp ⟨fuel', fails⟩
    exact (Except.error.inj (moment.fails (.of_perform fails) _ _ _ resolved)).symm

end

/-- The program that binds a variable to `self`, outside an object, and is that variable. -/
def Code.localSelf : Code :=
  ⟨{ file := .empty
     nodes := #[.selfRef, .var .empty, .locals ⟨0, 1⟩ ⟨1⟩]
     spans := #[⟨10, 14⟩]
     binds := #[⟨.empty, ⟨0⟩⟩] }, ⟨2⟩⟩

/-- The backtrace of `self` outside an object, in a variable: the place of `self`, the variable and
the program. -/
theorem Session.History.traces_truthful_of_localSelf :
  let session := Session.bare
  let start := State.new .onlyEmpty 40
  let call := Call.evaluate .localSelf
  session.Prepared .onlyEmpty ∧ session.History start [] start [.object session.library] ∧
    ∃ fuel b trace, call.action.run session fuel start
        = some (.error (.runtime .selfOutsideObject (some trace)), b) ∧ trace.size = 3 ∧
      ∃ fault live s, (call.action session).Raises session start fault live s ∧
        trace.lines = (fault.traced live).map (Frame.traceLine s.names) ∧
        live.getLast? = some ⟨Code.localSelf.location, .main⟩
  := by
  intro session start call
  have prepared : session.Prepared .onlyEmpty :=
    ⟨⟨[], rfl, by simp⟩, by simp [session, Session.bare]⟩
  have history : session.History start [] start [.object session.library] := .start
  have outcome : (call.action.run session 20 start).map Prod.fst
      = some (.error (.runtime .selfOutsideObject
        (some ⟨[⟨"thunk <>", some "", some ⟨10, 14⟩⟩, ⟨"thunk <>", some "", some ⟨10, 14⟩⟩,
          ⟨"<main>", none, none⟩]⟩))) := by decide +kernel
  obtain ⟨⟨_, b⟩, run, rfl⟩ := Option.map_eq_some_iff.mp outcome
  obtain ⟨fault, live, s, trace, raises, -, ⟨⟩, lines, -, last, -⟩ :=
    traces_truthful prepared history (.inl rfl) run
  exact ⟨prepared, history, 20, b, _, run, rfl, fault, live, s, raises, lines, last (by decide)⟩

/-- Where there is no room at all, the frame of the program is refused, and no frame is live. -/
example :
    ((Call.evaluate (.ofNode .null)).action.run .bare 1 (.new .onlyEmpty 0)).map Prod.fst
      = some (.error (.runtime (.stackOverflow 0) (some ⟨[]⟩))) := by
  decide +kernel

end Jsonnet
