import Jsonnet.Proofs.Evaluations
import Jsonnet.Proofs.Running

/-!
# The frames that are going on

A computation leaves behind the frames that it has found, whatever it comes to, and while it
goes on there are never more frames than the limit allows, or than there were in the
beginning if those were more. This is so for whatever a client does: it may call the
interpreter with any action, go on after a failure, and put frames of its own around anything
that it does.
-/

namespace Jsonnet

/-! ### Limits -/

namespace CallStack

/-- The stack with some frames under a limit, which may be reached already. -/
def ofFrames (frames : List Frame) (maxStack : Nat) : CallStack :=
  ⟨frames, maxStack - frames.length⟩

/-- There are never more frames than the limit. -/
theorem depth_le_limit (stack : CallStack) :
  stack.depth ≤ stack.limit
  := Nat.le_add_right _ _

theorem limit_ofFrames (frames : List Frame) (maxStack : Nat) :
  (ofFrames frames maxStack).limit = max maxStack frames.length
  := by
  simp only [limit, depth, ofFrames]
  omega

/-- Pushing a frame does not change the limit. -/
theorem limit_of_push? {stack stack' : CallStack} {frame : Frame}
    (h : stack.push? frame = some stack') :
  stack'.limit = stack.limit
  := by
  obtain ⟨frames, room⟩ := stack
  cases room with
  | zero => cases h
  | succ room =>
    cases h
    simp only [limit, depth, List.length_cons]
    omega

end CallStack

/-- Inside a frame the limit is the same as outside. -/
theorem State.limit_of_enter {a b : State} {frame? : Option Frame}
    (h : a.enter frame? = .ok b) :
  b.stack.limit = a.stack.limit
  := by
  cases frame? with
  | none =>
    cases h
    rfl
  | some frame =>
    rw [enter] at h
    split at h
    case h_1 => cases h
    case h_2 stack pushed =>
      cases h
      exact CallStack.limit_of_push? pushed

/-! ### Visited states -/

/-- The states that a computation visits from a state on, whether or not it comes to an end:
after an operation, where a task is asked for, inside the task and at its end, inside its
frame and outside again. -/
inductive Progress.Visits (session : Session) :
    {α : Type} → Progress α → State → State → Prop where
  | start {α : Type} {p : Progress α} {a : State} : Visits session p a a
  | step {α : Type} {operation : Operation} {next : operation.Result → Progress α} {a b s : State}
      {result : operation.Result} (taken : operation.apply session a = (.ok result, b))
      (later : (next result).Visits session b s) :
    Visits session (.step operation next) a s
  | stop {α : Type} {operation : Operation} {next : operation.Result → Progress α} {a b : State}
      {failure : Failure} (taken : operation.apply session a = (.error failure, b)) :
    Visits session (.step operation next) a b
  | asked {α : Type} {frame? : Option Frame} {task : Task} {next : task.Result → Progress α}
      {a b : State} (enters : a.enter frame? = .ok b) :
    Visits session (.wait frame? task next) a b
  | inside {α : Type} {frame? : Option Frame} {task : Task} {next : task.Result → Progress α}
      {a b s : State} (enters : a.enter frame? = .ok b) (unknown : task.known? session b = none)
      (inner : (task.action b session).Visits session (task.begin b) s) :
    Visits session (.wait frame? task next) a s
  | ended {α : Type} {frame? : Option Frame} {task : Task} {next : task.Result → Progress α}
      {a b c : State} {fuel : Nat} {outcome : Except Failure task.Result}
      (enters : a.enter frame? = .ok b) (ends : task.perform session fuel b = some (outcome, c)) :
    Visits session (.wait frame? task next) a c
  | left {α : Type} {frame? : Option Frame} {task : Task} {next : task.Result → Progress α}
      {a b c : State} {fuel : Nat} {outcome : Except Failure task.Result}
      (enters : a.enter frame? = .ok b) (ends : task.perform session fuel b = some (outcome, c)) :
    Visits session (.wait frame? task next) a (c.leave frame?)
  | later {α : Type} {frame? : Option Frame} {task : Task} {next : task.Result → Progress α}
      {a b c s : State} {fuel : Nat} {result : task.Result} (enters : a.enter frame? = .ok b)
      (ends : task.perform session fuel b = some (.ok result, c))
      (rest : (next result).Visits session (c.leave frame?) s) :
    Visits session (.wait frame? task next) a s

/-- What is asked for inside a frame leaves the stack as it was outside. -/
theorem Task.stack_leave {session : Session} {fuel : Nat} {task : Task} {frame? : Option Frame}
    {a b c : State} {outcome : Except Failure task.Result} (enters : a.enter frame? = .ok b)
    (ends : task.perform session fuel b = some (outcome, c)) :
  (c.leave frame?).stack = a.stack
  := ((Task.grows ends).leave enters).stack

/-- The limit is the same in all states that a computation visits. -/
theorem Progress.Visits.limit_eq {session : Session} {α : Type} {p : Progress α} {a s : State}
    (h : p.Visits session a s) :
  s.stack.limit = a.stack.limit
  := by
  induction h with
  | start => rfl
  | @step _ operation _ a b _ _ taken _ ih =>
    have grows := operation.grows session a
    rw [taken] at grows
    rw [ih, grows.stack]
  | @stop _ operation _ a _ _ taken =>
    have grows := operation.grows session a
    rw [taken] at grows
    rw [grows.stack]
  | asked enters => exact State.limit_of_enter enters
  | inside enters _ _ ih => rw [ih, Task.begin_stack, State.limit_of_enter enters]
  | ended enters ends => rw [(Task.grows ends).stack, State.limit_of_enter enters]
  | left enters ends => rw [Task.stack_leave enters ends]
  | later enters ends _ ih => rw [ih, Task.stack_leave enters ends]

/-- In all states that a computation visits the import cache has only been added to. -/
theorem Progress.Visits.imports {session : Session} {α : Type} {p : Progress α} {a s : State}
    (h : p.Visits session a s) :
  a.imports.Extends s.imports
  := by
  induction h with
  | start => exact .refl _
  | @step _ operation _ a b _ _ taken _ ih =>
    have grows := operation.grows session a
    rw [taken] at grows
    exact grows.imports.trans ih
  | @stop _ operation _ a _ _ taken =>
    have grows := operation.grows session a
    rw [taken] at grows
    exact grows.imports
  | asked enters =>
    rw [State.imports_of_enter enters]
    exact .refl _
  | inside enters _ _ ih =>
    rw [Task.begin_imports, State.imports_of_enter enters] at ih
    exact ih
  | ended enters ends =>
    rw [← State.imports_of_enter enters]
    exact (Task.grows ends).imports
  | left enters ends => exact ((Task.grows ends).leave enters).imports
  | later enters ends _ ih => exact ((Task.grows ends).leave enters).imports.trans ih

/-- An action leaves the stack behind as it has found it. -/
theorem Action.stack_eq {session : Session} {α : Type} {action : Action α} {fuel : Nat}
    {a b : State} {outcome : Except Failure α}
    (h : action.run session fuel a = some (outcome, b)) :
  b.stack = a.stack
  := by
  obtain ⟨_, h⟩ := Action.run_iff.mp ⟨fuel, h⟩
  exact (Progress.grows Task.grows h).stack

/-! ### Clients -/

/-- What a client does with an interpreter, one thing after another. It goes on after a failure
as it likes. -/
inductive Client : Type → Type 1 where
  | done {α : Type} (outcome : Except Failure α) : Client α
  /-- Runs an action: evaluates a program or an expression, forces a deferred value, calls a
  function, reads a field, writes a value out, or does something else that asks for tasks. -/
  | call {α β : Type} (action : Action β) (next : Except Failure β → Client α) : Client α
  /-- Does something inside a frame; without room for it, that is not begun. -/
  | withFrame {α β : Type} (frame : Frame) (inner : Client β)
      (next : Except Failure β → Client α) : Client α

/-- Runs a client, each task of an action that it calls in `fuel` steps at most. -/
def Client.run (session : Session) (fuel : Nat) {α : Type} : Client α → State → Option (Outcome α)
  | .done outcome, a => some (outcome, a)
  | .call action next, a =>
    match action.run session fuel a with
    | none => none
    | some (outcome, b) => (next outcome).run session fuel b
  | .withFrame frame inner next, a =>
    match a.enter (some frame) with
    | .error failure => (next (.error failure)).run session fuel a
    | .ok inside =>
      match inner.run session fuel inside with
      | none => none
      | some (outcome, b) => (next outcome).run session fuel (b.leave (some frame))

/-- The states that a client visits from a state on, whether or not it comes to an end. -/
inductive Client.Visits (session : Session) :
    {α : Type} → Client α → State → State → Prop where
  | start {α : Type} {client : Client α} {a : State} : Visits session client a a
  | call {α β : Type} {action : Action β} {next : Except Failure β → Client α} {a s : State}
      (inner : (action session).Visits session a s) :
    Visits session (.call action next) a s
  | called {α β : Type} {action : Action β} {next : Except Failure β → Client α} {a b s : State}
      {fuel : Nat} {outcome : Except Failure β}
      (ends : action.run session fuel a = some (outcome, b))
      (rest : (next outcome).Visits session b s) :
    Visits session (.call action next) a s
  | refused {α β : Type} {frame : Frame} {inner : Client β} {next : Except Failure β → Client α}
      {a s : State} {failure : Failure} (refuses : a.enter (some frame) = .error failure)
      (rest : (next (.error failure)).Visits session a s) :
    Visits session (.withFrame frame inner next) a s
  | inside {α β : Type} {frame : Frame} {inner : Client β} {next : Except Failure β → Client α}
      {a b s : State} (enters : a.enter (some frame) = .ok b) (inside : inner.Visits session b s) :
    Visits session (.withFrame frame inner next) a s
  | left {α β : Type} {frame : Frame} {inner : Client β} {next : Except Failure β → Client α}
      {a b c s : State} {fuel : Nat} {outcome : Except Failure β}
      (enters : a.enter (some frame) = .ok b) (ends : inner.run session fuel b = some (outcome, c))
      (rest : (next outcome).Visits session (c.leave (some frame)) s) :
    Visits session (.withFrame frame inner next) a s

/-- The frame is gone if what is done inside leaves the stack behind as it has found it. -/
theorem State.stack_leave {frame? : Option Frame} {a b c : State} (enters : a.enter frame? = .ok b)
    (same : c.stack = b.stack) :
  (c.leave frame?).stack = a.stack
  := by
  obtain ⟨stack, rfl, hleave⟩ := State.enter_eq (c := c) enters
  have hc : c = { c with stack } := by
    rw [← show c.stack = stack from same]
  rw [hc, hleave]

namespace Client

variable {session : Session} {fuel : Nat} {α : Type} {client : Client α} {a b s : State}

/-- A client leaves the stack behind as it has found it. -/
theorem stack_eq {outcome : Except Failure α}
    (h : client.run session fuel a = some (outcome, b)) :
  b.stack = a.stack
  := by
  induction client generalizing a b with
  | done =>
    cases h
    rfl
  | call action next ih =>
    rw [run] at h
    split at h
    case h_1 => cases h
    case h_2 outcome c called => rw [ih outcome h, Action.stack_eq called]
  | withFrame frame inner next ihInner ih =>
    rw [run] at h
    split at h
    case h_1 failure _ => exact ih _ h
    case h_2 inside enters =>
      split at h
      case h_1 => cases h
      case h_2 outcome c ends => rw [ih outcome h, State.stack_leave enters (ihInner ends)]

/-- The limit is the same in all states that a client visits. -/
theorem Visits.limit_eq (h : client.Visits session a s) :
  s.stack.limit = a.stack.limit
  := by
  induction h with
  | start => rfl
  | call inner => exact inner.limit_eq
  | called ends _ ih => rw [ih, Action.stack_eq ends]
  | refused _ _ ih => exact ih
  | inside enters _ ih => rw [ih, State.limit_of_enter enters]
  | left enters ends _ ih => rw [ih, State.stack_leave enters (stack_eq ends)]

/-- From every state, whatever a client does and whatever that comes to, the frames that are
going on afterwards are those that were going on before, and in every state that it visits
their number is at most the greater of the limit and the number in the beginning. -/
theorem keeps_frames (session : Session) (client : Client α) (frames : List Frame) (maxStack : Nat)
    (a : State) :
  (∀ fuel outcome b,
      client.run session fuel { a with stack := .ofFrames frames maxStack } = some (outcome, b) →
      b.stack.frames = frames ∧ b.stack = .ofFrames frames maxStack) ∧
    ∀ s, client.Visits session { a with stack := .ofFrames frames maxStack } s →
      s.stack.depth ≤ max maxStack frames.length
  := by
  constructor
  · intro fuel outcome b ends
    have same := stack_eq ends
    exact ⟨by rw [same]; rfl, same⟩
  · intro s visits
    calc s.stack.depth
      _ ≤ s.stack.limit := s.stack.depth_le_limit
      _ = (CallStack.ofFrames frames maxStack).limit := visits.limit_eq
      _ = max maxStack frames.length := CallStack.limit_ofFrames frames maxStack

/-- A client that evaluates a program inside a frame of its own and then outside, and tells which
of the two did not fail. -/
def insideAndOutside (frame : Frame) (code : Code) : Client (Bool × Bool) :=
  .withFrame frame (.call code.value .done) fun inside => .call code.value fun outside =>
    .done (.ok (inside.isOk, outside.isOk))

/-- An evaluation for which a client leaves no room fails, and the one after it finds the stack
empty again. -/
theorem keeps_frames_insideAndOutside :
  ∃ b,
    (insideAndOutside ⟨.unknown, .function⟩ (.ofNode .null)).run Session.bare 9
      { State.withThunks [] 0 with stack := .ofFrames [] 1 } = some (.ok (false, true), b) ∧
    b.stack.frames = [] ∧ b.stack = .ofFrames [] 1
  := by
  have ends : (insideAndOutside ⟨.unknown, .function⟩ (.ofNode .null)).run Session.bare 9
      { State.withThunks [] 0 with stack := .ofFrames [] 1 } = some (.ok (false, true), _) := rfl
  exact ⟨_, ends, (keeps_frames Session.bare _ [] 1 (State.withThunks [] 0)).1 9 _ _ ends⟩

end Client

end Jsonnet
