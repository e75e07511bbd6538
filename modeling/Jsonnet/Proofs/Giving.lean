import Jsonnet.Proofs.Knowing

/-!
# Putting runs together

What an action gives is put together from what its parts give: of what goes on, of the
operations it takes and of the tasks it asks for, with or without a frame.
-/

namespace Jsonnet

/-- A computation that goes on comes to what its second part comes to. -/
theorem Progress.resolve_bind {session : Session} {α β : Type} {p : Progress α}
    {next : α → Progress β} {carryOut : (task : Task) → State → Option (Outcome task.Result)}
    {a b : State} {r : α} (h : p.resolve session carryOut a = some (.ok r, b)) :
  (p.bind next).resolve session carryOut a = (next r).resolve session carryOut b
  := by
  induction p generalizing a with
  | finished result =>
    cases h
    rfl
  | step operation rest ih =>
    rw [resolve] at h
    rw [bind_step, resolve]
    split at h
    case h_1 => exact ih _ h
    case h_2 => cases h
  | wait frame? task rest ih =>
    rw [resolve] at h
    rw [bind_wait, resolve]
    split at h
    case h_1 => cases h
    case h_2 =>
      split at h
      case h_1 => cases h
      case h_2 => exact ih _ h
      case h_3 => cases h

/-- What carrying out a task gives, and the state it leaves behind. -/
def Task.Gives (session : Session) (task : Task) (a : State) (r : task.Result) (b : State) : Prop :=
  ∃ fuel, task.perform session fuel a = some (.ok r, b)

namespace Action.Gives

variable {session : Session} {α β : Type} {a b c : State}

theorem iff_resolve {x : Action α} {r : α} :
  x.Gives session a r b
    ↔ ∃ fuel, (x session).resolve session (Task.perform session fuel) a = some (.ok r, b)
  := Action.run_iff

theorem pure (r : α) :
  (Pure.pure r : Action α).Gives session a r a
  := iff_resolve.mpr ⟨0, rfl⟩

theorem bind {x : Action α} {next : α → Action β} {r : α} {s : β} (hx : x.Gives session a r b)
    (hnext : (next r).Gives session b s c) :
  (x >>= next).Gives session a s c
  := by
  obtain ⟨fuel, hx⟩ := iff_resolve.mp hx
  obtain ⟨fuel', hnext⟩ := iff_resolve.mp hnext
  apply iff_resolve.mpr
  use max fuel fuel'
  rw [bind_apply, Progress.resolve_bind (Progress.resolve_le (Nat.le_max_left fuel fuel') hx)]
  exact Progress.resolve_le (Nat.le_max_right fuel fuel') hnext

theorem of_bind {x : Action α} {next : α → Action β} {s : β}
    (h : (x >>= next).Gives session a s c) :
  ∃ r b, x.Gives session a r b ∧ (next r).Gives session b s c
  := by
  obtain ⟨fuel, h⟩ := iff_resolve.mp h
  obtain ⟨r, b, hx, hnext⟩ := Progress.resolve_bind_ok h
  exact ⟨r, b, iff_resolve.mpr ⟨fuel, hx⟩, iff_resolve.mpr ⟨fuel, hnext⟩⟩

theorem take {operation : Operation} {r : operation.Result}
    (h : operation.apply session a = (.ok r, b)) :
  (Action.take operation).Gives session a r b
  := by
  apply iff_resolve.mpr
  use 0
  rw [Action.take, Progress.resolve, h]
  rfl

/-- Asking for a task gives what the task gives. -/
theorem request_iff {task : Task} {r : task.Result} :
  (Action.request task).Gives session a r b ↔ task.Gives session a r b
  := by
  rw [iff_resolve]
  constructor
  · rintro ⟨fuel, h⟩
    exact ⟨fuel, Progress.resolve_request h⟩
  · rintro ⟨fuel, h⟩
    use fuel
    simp only [Action.request, Progress.resolve, State.enter, h, State.leave]

/-- A task inside a frame for which there is room. -/
theorem inFrame {frame : Frame} {task : Task} {r : task.Result} (enters : a.enter (some frame) = .ok b)
    (h : task.Gives session b r c) :
  (Action.inFrame frame task).Gives session a r (c.leave (some frame))
  := by
  obtain ⟨fuel, h⟩ := h
  apply iff_resolve.mpr
  use fuel
  simp only [Action.inFrame, Progress.resolve, enters, h]

/-- An action gives one result only. -/
theorem unique {x : Action α} {r s : α} (h : x.Gives session a r b) (h' : x.Gives session a s c) :
  r = s ∧ b = c
  := by
  obtain ⟨fuel, h⟩ := iff_resolve.mp h
  obtain ⟨fuel', h'⟩ := iff_resolve.mp h'
  cases Progress.resolve_unique h h'
  exact ⟨rfl, rfl⟩

/-- Where it is known what the first part gives, all depends on the second part. -/
theorem bind_iff {x : Action α} {next : α → Action β} {r : α} {s : β} (hx : x.Gives session a r b) :
  (x >>= next).Gives session a s c ↔ (next r).Gives session b s c
  := by
  constructor
  · intro h
    obtain ⟨r', b', hx', hnext⟩ := of_bind h
    obtain ⟨rfl, rfl⟩ := hx'.unique hx
    exact hnext
  · exact hx.bind

/-- What an action gives, it gives in a state that has only been added to. -/
theorem grows {x : Action α} {r : α} (h : x.Gives session a r b) :
  a.Grows session b
  := by
  obtain ⟨fuel, h⟩ := iff_resolve.mp h
  exact Progress.grows Task.grows h

end Action.Gives

namespace Task.Gives

variable {session : Session} {a b : State} {task : Task} {r : task.Result}

/-- A task whose result is known gives that. -/
theorem known (h : task.known? session a = some r) :
  task.Gives session a r a
  := by
  use 1
  rw [perform, h]

/-- A task whose result is not known gives what its action gives. -/
theorem of_action (unknown : task.known? session a = none)
    (h : (task.action a).Gives session (task.begin a) r b) :
  task.Gives session a r (task.settle session b (.ok r))
  := by
  obtain ⟨fuel, h⟩ := Action.Gives.iff_resolve.mp h
  use fuel + 1
  rw [perform_unknown unknown, h]
  rfl

/-- The result of a task is known or comes from its action. -/
theorem cases_known (h : task.Gives session a r b) :
  (task.known? session a = some r ∧ b = a) ∨
    task.known? session a = none ∧ ∃ c, (task.action a).Gives session (task.begin a) r c ∧
      b = task.settle session c (.ok r)
  := by
  obtain ⟨fuel, h⟩ := h
  cases fuel with
  | zero => cases h
  | succ fuel =>
    cases hknown : task.known? session a with
    | some known =>
      rw [perform, hknown] at h
      cases h
      exact .inl ⟨rfl, rfl⟩
    | none =>
      rw [perform_unknown hknown] at h
      obtain ⟨⟨outcome, c⟩, hrun, heq⟩ := Option.map_eq_some_iff.mp h
      cases heq
      exact .inr ⟨rfl, c, Action.Gives.iff_resolve.mpr ⟨fuel, hrun⟩, rfl⟩

theorem grows (h : task.Gives session a r b) :
  a.Grows session b
  := by
  obtain ⟨fuel, h⟩ := h
  exact Task.grows h

/-- What a builtin gives inside its frame is what it computes. -/
theorem builtin_iff {builtin : Builtin} {arguments : List Deferred} {v : Value} :
  (Task.builtin builtin arguments).Gives session a v b
    ↔ (applyBuiltin builtin arguments).Gives session a v b
  := by
  constructor
  · intro h
    obtain ⟨known, -⟩ | ⟨-, c, ends, rfl⟩ := h.cases_known
    · cases known
    · exact ends
  · intro h
    have unknown : (Task.builtin builtin arguments).known? session a = none := rfl
    exact of_action unknown h

end Task.Gives

end Jsonnet
