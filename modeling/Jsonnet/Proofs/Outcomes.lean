import Jsonnet.Proofs.Giving

/-!
# What actions come to

An action comes to a result or to a failure. What it comes to is put together from what its parts
come to: either its first part fails, or its second part decides.
-/

namespace Jsonnet

variable {session : Session} {α β : Type}

/-- The two parts of a computation, one after the other. -/
theorem Progress.resolve_bind_eq {carryOut : (task : Task) → State → Option (Outcome task.Result)}
    (p : Progress α) (next : α → Progress β) (a : State) :
  (p.bind next).resolve session carryOut a
    = (p.resolve session carryOut a).bind fun (outcome, b) =>
        match outcome with
        | .ok r => (next r).resolve session carryOut b
        | .error failure => some (.error failure, b)
  := by
  induction p generalizing a with
  | finished result => rfl
  | step operation rest ih =>
    rw [bind_step, resolve, resolve]
    split
    case h_1 => exact ih _ _
    case h_2 => rfl
  | wait frame? task rest ih =>
    rw [bind_wait, resolve, resolve]
    split
    case h_1 => rfl
    case h_2 =>
      split
      case h_1 => rfl
      case h_2 => exact ih _ _
      case h_3 => rfl

/-- Either the first part of a computation fails, or the second part decides. -/
theorem Progress.resolve_bind_cases
    {carryOut : (task : Task) → State → Option (Outcome task.Result)} {p : Progress α}
    {next : α → Progress β} {a c : State} {outcome : Except Failure β}
    (h : (p.bind next).resolve session carryOut a = some (outcome, c)) :
  (∃ failure, outcome = .error failure ∧ p.resolve session carryOut a = some (.error failure, c)) ∨
    ∃ r b, p.resolve session carryOut a = some (.ok r, b) ∧
      (next r).resolve session carryOut b = some (outcome, c)
  := by
  rw [resolve_bind_eq, Option.bind_eq_some_iff] at h
  obtain ⟨⟨_ | r, b⟩, hp, hnext⟩ := h
  · cases hnext
    exact .inl ⟨_, rfl, hp⟩
  · exact .inr ⟨r, b, hp, hnext⟩

/-- The result of a computation, put into a function. -/
theorem Progress.resolve_map {carryOut : (task : Task) → State → Option (Outcome task.Result)}
    (f : α → β) (p : Progress α) (a : State) :
  (p.bind fun r => .finished (f r)).resolve session carryOut a
    = (p.resolve session carryOut a).map fun (outcome, b) => (outcome.map f, b)
  := by
  rw [resolve_bind_eq]
  rcases p.resolve session carryOut a with _ | ⟨_ | r, b⟩ <;> rfl

/-- Asking for a task is carrying it out. -/
theorem Progress.resolve_request_eq (carryOut : (task : Task) → State → Option (Outcome task.Result))
    (task : Task) (a : State) :
  (Action.request task session).resolve session carryOut a = carryOut task a
  := by
  simp only [Action.request, resolve, State.enter]
  rcases carryOut task a with _ | ⟨_ | r, b⟩ <;> rfl

/-- What an action comes to, and the state it leaves behind. -/
def Action.Ends (session : Session) (x : Action α) (a : State) (outcome : Except Failure α)
    (b : State) : Prop :=
  ∃ fuel, x.run session fuel a = some (outcome, b)

/-- What a task comes to, and the state it leaves behind. -/
def Task.Ends (session : Session) (task : Task) (a : State) (outcome : Except Failure task.Result)
    (b : State) : Prop :=
  ∃ fuel, task.run session fuel a = some (outcome, b)

section

variable {a b c : State}

theorem Task.ends_iff_perform {task : Task} {outcome : Except Failure task.Result} :
  task.Ends session a outcome b ↔ ∃ fuel, task.perform session fuel a = some (outcome, b)
  := Task.run_iff

namespace Action.Ends

theorem iff_resolve {x : Action α} {outcome : Except Failure α} :
  x.Ends session a outcome b
    ↔ ∃ fuel, (x session).resolve session (Task.perform session fuel) a = some (outcome, b)
  := Action.run_iff

/-- An action comes to one outcome only. -/
theorem unique {x : Action α} {outcome outcome' : Except Failure α} (h : x.Ends session a outcome b)
    (h' : x.Ends session a outcome' c) :
  outcome = outcome' ∧ b = c
  := by
  obtain ⟨fuel, h⟩ := iff_resolve.mp h
  obtain ⟨fuel', h'⟩ := iff_resolve.mp h'
  cases Progress.resolve_unique h h'
  exact ⟨rfl, rfl⟩

/-- Whatever an action comes to, the state has only been added to. -/
theorem grows {x : Action α} {outcome : Except Failure α} (h : x.Ends session a outcome b) :
  a.Grows session b
  := by
  obtain ⟨fuel, h⟩ := iff_resolve.mp h
  exact Progress.grows Task.grows h

theorem pure_iff {r : α} {outcome : Except Failure α} :
  (Pure.pure r : Action α).Ends session a outcome b ↔ outcome = .ok r ∧ b = a
  := by
  rw [iff_resolve]
  constructor
  · rintro ⟨fuel, ⟨⟩⟩
    exact ⟨rfl, rfl⟩
  · rintro ⟨rfl, rfl⟩
    exact ⟨0, rfl⟩

theorem session_iff {outcome : Except Failure Session} :
  Action.session.Ends session a outcome b ↔ outcome = .ok session ∧ b = a
  := by
  rw [iff_resolve]
  constructor
  · rintro ⟨fuel, ⟨⟩⟩
    exact ⟨rfl, rfl⟩
  · rintro ⟨rfl, rfl⟩
    exact ⟨0, rfl⟩

theorem take_iff {operation : Operation} {outcome : Except Failure operation.Result} :
  (Action.take operation).Ends session a outcome b ↔ operation.apply session a = (outcome, b)
  := by
  have resolve : ∀ fuel, (Action.take operation session).resolve session (Task.perform session fuel) a
      = some (operation.apply session a) := by
    intro fuel
    rw [Action.take, Progress.resolve]
    rcases operation.apply session a with ⟨_ | _, _⟩ <;> rfl
  simp only [iff_resolve, resolve, Option.some.injEq, exists_const]

theorem raise_iff {cause : Cause} {site : Location} {outcome : Except Failure α} :
  (Action.raise cause site : Action α).Ends session a outcome b
    ↔ outcome = .error (a.failure cause site) ∧ b = a
  := by
  rw [iff_resolve]
  constructor
  · rintro ⟨fuel, ⟨⟩⟩
    exact ⟨rfl, rfl⟩
  · rintro ⟨rfl, rfl⟩
    exact ⟨0, rfl⟩

theorem fail_iff {failure : Failure} {outcome : Except Failure α} :
  (Action.fail failure : Action α).Ends session a outcome b ↔ outcome = .error failure ∧ b = a
  := by
  rw [iff_resolve]
  constructor
  · rintro ⟨fuel, ⟨⟩⟩
    exact ⟨rfl, rfl⟩
  · rintro ⟨rfl, rfl⟩
    exact ⟨0, rfl⟩

/-- Either the first part fails, or the second part decides. -/
theorem bind_iff {x : Action α} {next : α → Action β} {outcome : Except Failure β} :
  (x >>= next).Ends session a outcome c
    ↔ (∃ failure, outcome = .error failure ∧ x.Ends session a (.error failure) c) ∨
      ∃ r b, x.Ends session a (.ok r) b ∧ (next r).Ends session b outcome c
  := by
  simp only [iff_resolve, bind_apply]
  constructor
  · rintro ⟨fuel, h⟩
    obtain ⟨failure, rfl, hx⟩ | ⟨r, b, hx, hnext⟩ := Progress.resolve_bind_cases h
    · exact .inl ⟨failure, rfl, fuel, hx⟩
    · exact .inr ⟨r, b, ⟨fuel, hx⟩, fuel, hnext⟩
  · rintro (⟨failure, rfl, fuel, hx⟩ | ⟨r, b, ⟨fuel, hx⟩, fuel', hnext⟩)
    · exact ⟨fuel, by rw [Progress.resolve_bind_eq, hx]; rfl⟩
    · refine ⟨max fuel fuel', ?_⟩
      rw [Progress.resolve_bind (Progress.resolve_le (Nat.le_max_left fuel fuel') hx)]
      exact Progress.resolve_le (Nat.le_max_right fuel fuel') hnext

/-- Where it is known what the first part comes to, all depends on the second part. -/
theorem bind_iff_of_ok {x : Action α} {next : α → Action β} {r : α}
    (hx : x.Ends session a (.ok r) b) {outcome : Except Failure β} :
  (x >>= next).Ends session a outcome c ↔ (next r).Ends session b outcome c
  := by
  rw [bind_iff]
  constructor
  · rintro (⟨_, _, fails⟩ | ⟨r', b', h, hnext⟩)
    · cases (hx.unique fails).1
    · obtain ⟨⟨⟩, rfl⟩ := hx.unique h
      exact hnext
  · exact fun hnext => .inr ⟨r, b, hx, hnext⟩

/-- Asking for a task comes to what the task comes to. -/
theorem request_iff {task : Task} {outcome : Except Failure task.Result} :
  (Action.request task).Ends session a outcome b ↔ task.Ends session a outcome b
  := by
  simp only [iff_resolve, Progress.resolve_request_eq, Task.ends_iff_perform]

/-- A task inside a frame for which there is room comes to what the task comes to. -/
theorem inFrame_iff {frame : Frame} {task : Task} {s : State} (enters : a.enter (some frame) = .ok s)
    {outcome : Except Failure task.Result} :
  (Action.inFrame frame task).Ends session a outcome b
    ↔ ∃ c, task.Ends session s outcome c ∧ b = c.leave (some frame)
  := by
  simp only [iff_resolve, Task.ends_iff_perform]
  have resolve : ∀ fuel, (Action.inFrame frame task session).resolve session
        (Task.perform session fuel) a
      = (task.perform session fuel s).map fun (outcome, c) => (outcome, c.leave (some frame)) := by
    intro fuel
    rcases h : task.perform session fuel s with _ | ⟨_ | _, _⟩ <;>
      simp only [Action.inFrame, Progress.resolve, enters, h, Option.map]
  constructor
  · rintro ⟨fuel, h⟩
    rw [resolve, Option.map_eq_some_iff] at h
    obtain ⟨⟨_, c⟩, h, heq⟩ := h
    cases heq
    exact ⟨c, ⟨fuel, h⟩, rfl⟩
  · rintro ⟨c, ⟨fuel, h⟩, rfl⟩
    exact ⟨fuel, by rw [resolve, h]; rfl⟩

end Action.Ends

namespace Task.Ends

variable {task : Task} {outcome : Except Failure task.Result}

/-- A task whose result is known comes to that. -/
theorem known_iff {r : task.Result} (known : task.known? session a = some r) :
  task.Ends session a outcome b ↔ outcome = .ok r ∧ b = a
  := by
  rw [ends_iff_perform]
  have gives : task.perform session 1 a = some (.ok r, a) := by rw [perform, known]
  constructor
  · rintro ⟨fuel, h⟩
    cases perform_unique h gives
    exact ⟨rfl, rfl⟩
  · rintro ⟨rfl, rfl⟩
    exact ⟨1, gives⟩

/-- A task whose result is not known comes to what its action comes to. -/
theorem unknown_iff (unknown : task.known? session a = none) :
  task.Ends session a outcome b
    ↔ ∃ c, (task.action a).Ends session (task.begin a) outcome c ∧
      b = task.settle session c outcome
  := by
  simp only [ends_iff_perform, Action.Ends.iff_resolve]
  constructor
  · rintro ⟨_ | fuel, h⟩
    · cases h
    · rw [perform_unknown unknown, Option.map_eq_some_iff] at h
      obtain ⟨⟨_, c⟩, h, heq⟩ := h
      cases heq
      exact ⟨c, ⟨fuel, h⟩, rfl⟩
  · rintro ⟨c, ⟨fuel, h⟩, rfl⟩
    use fuel + 1
    rw [perform_unknown unknown, h]
    rfl

end Task.Ends

end

end Jsonnet
