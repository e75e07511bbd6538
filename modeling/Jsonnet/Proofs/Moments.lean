import Jsonnet.Proofs.Growth
import Jsonnet.Proofs.Running

/-!
# Moments

A moment of a computation is reached when a task is about to be carried out. The tasks that
have been begun and wait for it stand above it, the innermost first. A computation need not
come to an end to have moments.
-/

namespace Jsonnet

/-- The moments of a computation from a state on: the tasks that have been begun and wait, the
innermost first, the task that is about to be carried out, and the state at this moment. -/
inductive Progress.Moment (session : Session) :
    {α : Type} → Progress α → State → List Task → Task → State → Prop where
  | step {α : Type} {operation : Operation} {next : operation.Result → Progress α} {a b s : State}
      {result : operation.Result} {above : List Task} {task : Task}
      (taken : operation.apply session a = (.ok result, b))
      (later : (next result).Moment session b above task s) :
    Moment session (.step operation next) a above task s
  | asked {α : Type} {frame? : Option Frame} {task : Task} {next : task.Result → Progress α}
      {a b : State} (enters : a.enter frame? = .ok b) :
    Moment session (.wait frame? task next) a [] task b
  | inside {α : Type} {frame? : Option Frame} {outer task : Task}
      {next : outer.Result → Progress α} {a b s : State} {above : List Task}
      (enters : a.enter frame? = .ok b) (unknown : outer.known? session b = none)
      (inner : (outer.action b session).Moment session (outer.begin b) above task s) :
    Moment session (.wait frame? outer next) a (above ++ [outer]) task s
  | later {α : Type} {frame? : Option Frame} {first task : Task}
      {next : first.Result → Progress α} {a b c s : State} {result : first.Result}
      {above : List Task} {fuel : Nat} (enters : a.enter frame? = .ok b)
      (ends : first.perform session fuel b = some (.ok result, c))
      (rest : (next result).Moment session (c.leave frame?) above task s) :
    Moment session (.wait frame? first next) a above task s

/-- What an operation comes to has only been added to. -/
theorem Operation.grows_of_apply {session : Session} {a b : State} {operation : Operation}
    {outcome : Except Failure operation.Result}
    (h : operation.apply session a = (outcome, b)) :
  a.Grows session b
  := by
  have grows := operation.grows session a
  rw [h] at grows
  exact grows

/-- A state and the one outside its frame hold the same checks. -/
theorem State.checks_of_enter {a b : State} {frame? : Option Frame}
    (h : a.enter frame? = .ok b) :
  b.checks = a.checks
  := by
  obtain ⟨stack, rfl, -⟩ := enter_eq (c := a) h
  rfl

theorem State.leave_checks (a : State) (frame? : Option Frame) :
  (a.leave frame?).checks = a.checks
  := by
  cases frame? <;> rfl

/-- While a state grows, an object is under check in the end if it was in the beginning. -/
theorem State.Grows.inProgress_iff {session : Session} {a b : State} (h : a.Grows session b)
    {i : Nat} :
  b.checks[i]? = some .inProgress ↔ a.checks[i]? = some .inProgress
  := by
  constructor
  · exact h.inProgress
  · intro ha
    obtain ⟨new, hnew, becomes⟩ := h.check ha
    rw [hnew, becomes]

/-- What was under check before a task has begun still is. -/
theorem Task.begin_inProgress {a : State} {i : Nat} (task : Task)
    (h : a.checks[i]? = some .inProgress) :
  (task.begin a).checks[i]? = some .inProgress
  := by
  cases task with
  | check o =>
    rw [begin, State.getElem?_setCheck, h]
    split <;> rfl
  | _ => exact h

namespace Progress.Moment

variable {session : Session} {α : Type} {p : Progress α} {a s : State} {above : List Task}
  {task : Task}

/-- The moments of a computation that waits for a task: the task is about to be carried out, it
is going on, or the computation goes on with its result. -/
theorem cases_wait {frame? : Option Frame} {outer : Task} {next : outer.Result → Progress α}
    (h : (Progress.wait frame? outer next).Moment session a above task s) :
  ∃ b, a.enter frame? = .ok b ∧
    ((above = [] ∧ task = outer ∧ s = b) ∨
      (∃ inner, above = inner ++ [outer] ∧ outer.known? session b = none ∧
        (outer.action b session).Moment session (outer.begin b) inner task s) ∨
      ∃ fuel result c, outer.perform session fuel b = some (.ok result, c) ∧
        (next result).Moment session (c.leave frame?) above task s)
  := by
  cases h with
  | asked enters => exact ⟨s, enters, .inl ⟨rfl, rfl, rfl⟩⟩
  | inside enters unknown inner => exact ⟨_, enters, .inr (.inl ⟨_, rfl, unknown, inner⟩)⟩
  | later enters ends rest => exact ⟨_, enters, .inr (.inr ⟨_, _, _, ends, rest⟩)⟩

/-- The moments of a task that is about to be carried out are moments of the computation that it
is a part of. -/
theorem nested (h : p.Moment session a above task s) {inside : List Task} {inner : Task} {t : State}
    (moment : (Progress.wait none task Progress.finished).Moment session s inside inner t) :
  p.Moment session a (inside ++ above) inner t
  := by
  induction h with
  | step taken _ ih => exact .step taken (ih moment)
  | asked enters =>
    obtain ⟨b, same, cases⟩ := moment.cases_wait
    cases same
    obtain ⟨rfl, rfl, rfl⟩ | ⟨within, rfl, unknown, moment⟩ | ⟨_, _, _, _, moment⟩ := cases
    · exact .asked enters
    · rw [List.append_nil]
      exact .inside enters unknown moment
    · cases moment
  | inside enters unknown _ ih =>
    rw [← List.append_assoc]
    exact .inside enters unknown (ih moment)
  | later enters ends _ ih => exact .later enters ends (ih moment)

/-- At a moment the import cache has only been added to. -/
theorem imports (h : p.Moment session a above task s) :
  a.imports.Extends s.imports
  := by
  induction h with
  | step taken _ ih => exact (Operation.grows_of_apply taken).imports.trans ih
  | asked enters =>
    rw [State.imports_of_enter enters]
    exact .refl _
  | inside enters _ _ ih =>
    rw [Task.begin_imports, State.imports_of_enter enters] at ih
    exact ih
  | later enters ends _ ih => exact ((Task.grows ends).leave enters).imports.trans ih

/-- What was under check in the beginning is so at every moment. -/
theorem inProgress (h : p.Moment session a above task s) {i : Nat}
    (hi : a.checks[i]? = some .inProgress) :
  s.checks[i]? = some .inProgress
  := by
  induction h with
  | step taken _ ih =>
    have grows := Operation.grows_of_apply taken
    exact ih (grows.inProgress_iff.mpr hi)
  | asked enters =>
    rw [State.checks_of_enter enters]
    exact hi
  | inside enters _ _ ih =>
    apply ih
    apply Task.begin_inProgress
    rw [State.checks_of_enter enters]
    exact hi
  | later enters ends _ ih => exact ih (((Task.grows ends).leave enters).inProgress_iff.mpr hi)

/-- The moments of the first part of a computation are moments of the computation. -/
theorem bind (h : p.Moment session a above task s) {β : Type} (next : α → Progress β) :
  (p.bind next).Moment session a above task s
  := by
  induction h with
  | step taken _ ih => exact .step taken (ih next)
  | asked enters => exact .asked enters
  | inside enters unknown inner _ => exact .inside enters unknown inner
  | later enters ends _ ih => exact .later enters ends (ih next)

/-- The moments of the second part of a computation are moments of the computation. -/
theorem after {β : Type} {next : α → Progress β} {fuel : Nat} {r : α} {b : State}
    (ends : p.resolve session (Task.perform session fuel) a = some (.ok r, b))
    (h : (next r).Moment session b above task s) :
  (p.bind next).Moment session a above task s
  := by
  induction p generalizing a with
  | finished result =>
    cases ends
    exact h
  | step operation rest ih =>
    rw [resolve] at ends
    split at ends
    case h_1 taken => exact .step taken (ih _ ends)
    case h_2 => cases ends
  | wait frame? first rest ih =>
    rw [resolve] at ends
    split at ends
    case h_1 => cases ends
    case h_2 enters =>
      split at ends
      case h_1 => cases ends
      case h_2 performs => exact .later enters performs (ih _ ends)
      case h_3 => cases ends

end Progress.Moment

/-! ### What holds at all moments -/

/-- Whether a property of tasks and states holds at all moments of a computation. -/
def Progress.Always (session : Session) (Q : Task → State → Prop) {α : Type} (p : Progress α)
    (a : State) : Prop :=
  ∀ above task s, p.Moment session a above task s → Q task s

/-- Whether a property of tasks and states holds at all moments of a task, that at which it is
about to be carried out among them. -/
def Task.Always (session : Session) (Q : Task → State → Prop) (task : Task) (a : State) : Prop :=
  (Progress.wait none task Progress.finished).Always session Q a

section

variable {session : Session} {Q : Task → State → Prop} {α β : Type} {a b : State}

namespace Progress.Always

theorem step {operation : Operation} {next : operation.Result → Progress α}
    (h : (Progress.step operation next).Always session Q a) {r : operation.Result}
    (taken : operation.apply session a = (.ok r, b)) :
  (next r).Always session Q b
  := fun above task s moment => h above task s (.step taken moment)

/-- A task that is about to be carried out. -/
theorem moment {p : Progress α} {above : List Task} {task : Task} {s : State}
    (h : p.Always session Q a) (moment : p.Moment session a above task s) :
  task.Always session Q s
  := fun _ inner t inside => h _ inner t (moment.nested inside)

theorem later {frame? : Option Frame} {task : Task} {next : task.Result → Progress α}
    (h : (Progress.wait frame? task next).Always session Q a) (enters : a.enter frame? = .ok b)
    {fuel : Nat} {r : task.Result} {c : State}
    (ends : task.perform session fuel b = some (.ok r, c)) :
  (next r).Always session Q (c.leave frame?)
  := fun above inner s moment => h above inner s (.later enters ends moment)

theorem first {p : Progress α} {next : α → Progress β} (h : (p.bind next).Always session Q a) :
  p.Always session Q a
  := fun above task s moment => h above task s (moment.bind next)

theorem second {p : Progress α} {next : α → Progress β} (h : (p.bind next).Always session Q a)
    {fuel : Nat} {r : α}
    (ends : p.resolve session (Task.perform session fuel) a = some (.ok r, b)) :
  (next r).Always session Q b
  := fun above task s moment => h above task s (moment.after ends)

end Progress.Always

namespace Task.Always

variable {task : Task} (h : task.Always session Q a)

include h

theorem now :
  Q task a
  := h _ _ _ (.asked rfl)

theorem action (unknown : task.known? session a = none) :
  (task.action a session).Always session Q (task.begin a)
  := fun _ inner s moment => h _ inner s (.inside rfl unknown moment)

end Task.Always

end

end Jsonnet
