import Jsonnet.Eval.Operation
import Jsonnet.Eval.Task

/-!
# Actions

An action is a computation that takes operations on the state and asks for the results of
tasks, possibly inside a frame. It says nothing about how either is carried out. A failure
of an operation or of a task is the failure of the action, which goes on with results
only.
-/

namespace Jsonnet

/-- A computation: finished, or waiting for the result of an operation or of a task. -/
inductive Progress (α : Type) where
  | finished (result : α)
  | step (operation : Operation) (next : operation.Result → Progress α)
  /-- The frame, if there is one, is there exactly as long as the task; without room for
  it the task is not begun. -/
  | wait (frame? : Option Frame) (task : Task) (next : task.Result → Progress α)

namespace Progress

variable {α β : Type}

/-- Goes on with the result of a computation. -/
def bind (progress : Progress α) (next : α → Progress β) : Progress β :=
  match progress with
  | .finished result => next result
  | .step operation rest => .step operation fun result => (rest result).bind next
  | .wait frame? task rest => .wait frame? task fun result => (rest result).bind next

@[simp]
theorem bind_finished (result : α) (next : α → Progress β) :
  (Progress.finished result).bind next = next result
  := rfl

@[simp]
theorem bind_step (operation : Operation) (rest : operation.Result → Progress α)
    (next : α → Progress β) :
  (Progress.step operation rest).bind next
    = .step operation fun result => (rest result).bind next
  := rfl

@[simp]
theorem bind_wait (frame? : Option Frame) (task : Task) (rest : task.Result → Progress α)
    (next : α → Progress β) :
  (Progress.wait frame? task rest).bind next
    = .wait frame? task fun result => (rest result).bind next
  := rfl

/-- Going on with nothing changes nothing. -/
@[simp]
theorem bind_finished_right (progress : Progress α) :
  progress.bind .finished = progress
  := by
  induction progress with
  | finished result => rfl
  | step operation rest ih => simp [ih]
  | wait frame? task rest ih => simp [ih]

/-- Going on twice is going on once with both. -/
theorem bind_assoc {γ : Type} (progress : Progress α) (f : α → Progress β)
    (g : β → Progress γ) :
  (progress.bind f).bind g = progress.bind fun result => (f result).bind g
  := by
  induction progress with
  | finished result => rfl
  | step operation rest ih => simp [ih]
  | wait frame? task rest ih => simp [ih]

end Progress

/-- A computation in a session. -/
def Action (α : Type) : Type := Session → Progress α

namespace Action

variable {α β : Type}

/-- The action with a given result. -/
def result (a : α) : Action α := fun _ => .finished a

/-- Goes on with the result of an action; a failure is passed on. -/
def andThen (action : Action α) (next : α → Action β) : Action β := fun session =>
  (action session).bind fun a => next a session

instance : Monad Action where
  pure := result
  bind := andThen

theorem pure_apply (a : α) (session : Session) :
  (pure a : Action α) session = .finished a
  := rfl

theorem bind_apply (action : Action α) (next : α → Action β) (session : Session) :
  (action >>= next) session = (action session).bind fun a => next a session
  := rfl

/-- Going on with the same result changes nothing. -/
theorem bind_result (action : Action α) :
  action.andThen result = action
  := by
  funext session
  apply Progress.bind_finished_right

/-- Going on twice is going on once with both. -/
theorem bind_assoc {γ : Type} (action : Action α) (f : α → Action β) (g : β → Action γ) :
  action >>= f >>= g = action >>= fun a => f a >>= g
  := by
  funext session
  apply Progress.bind_assoc

instance : LawfulMonad Action :=
  LawfulMonad.mk' Action bind_result (fun _ _ => rfl) bind_assoc

/-! ### Basic actions -/

/-- The session. -/
def session : Action Session := fun session => .finished session

/-- Takes an operation. -/
def take (operation : Operation) : Action operation.Result := fun _ =>
  .step operation .finished

/-- Fails. -/
def fail (failure : Failure) : Action α := fun _ => .step (.fail failure) nofun

/-- Fails with a run-time error raised at a location, with the frames at this moment. -/
def raise (cause : Cause) (site : Location) : Action α := fun _ =>
  .step (.raise cause site) nofun

/-- Fails with a run-time error that is located by the innermost frame. -/
def raiseHere (cause : Cause) : Action α := raise cause .unknown

/-- Carries out a task. -/
def request (task : Task) : Action task.Result := fun _ => .wait none task .finished

/-- Carries out a task inside a frame. -/
def inFrame (frame : Frame) (task : Task) : Action task.Result := fun _ =>
  .wait (some frame) task .finished

end Action

end Jsonnet
