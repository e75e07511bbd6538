import Mathlib.Order.Nat
import Mathlib.Tactic.Common
import Jsonnet.Eval.Run

/-!
# The two ways of running agree

What an action comes to does not depend on the fuel, as long as there is enough of it,
and the machine with a stack of its own comes to the same as the recursion on tasks.
-/

namespace Jsonnet

variable {session : Session}

/-! ### Fuel -/

/-- A computation comes to the same with a way of carrying out more tasks. -/
theorem Progress.resolve_mono {α : Type} {progress : Progress α}
    {f g : (task : Task) → State → Option (Outcome task.Result)}
    (hfg : ∀ {task state x}, f task state = some x → g task state = some x)
    {state : State} {x : Outcome α} (h : progress.resolve session f state = some x) :
  progress.resolve session g state = some x
  := by
  induction progress generalizing state with
  | finished result => exact h
  | step operation next ih =>
    rw [resolve] at h ⊢
    split at h
    case h_1 result mid happly => exact ih result h
    case h_2 failure mid happly => exact h
  | wait frame? task next ih =>
    rw [resolve] at h ⊢
    split at h
    case h_1 => exact h
    case h_2 inside henter =>
      split at h
      case h_1 => cases h
      case h_2 result mid hmid =>
        rw [hfg hmid]
        exact ih result h
      case h_3 failure mid hmid =>
        rw [hfg hmid]
        exact h

/-- A computation that goes on is carried out one part after the other. -/
theorem Progress.resolve_bind_ok {α β : Type} {progress : Progress α} {next : α → Progress β}
    {carryOut : (task : Task) → State → Option (Outcome task.Result)} {a c : State} {result : β}
    (h : (progress.bind next).resolve session carryOut a = some (.ok result, c)) :
  ∃ first b, progress.resolve session carryOut a = some (.ok first, b) ∧
    (next first).resolve session carryOut b = some (.ok result, c)
  := by
  induction progress generalizing a with
  | finished first => exact ⟨first, a, rfl, h⟩
  | step operation rest ih =>
    rw [bind_step, resolve] at h
    rw [resolve]
    split at h
    case h_1 => exact ih _ h
    case h_2 => cases h
  | wait frame? task rest ih =>
    rw [bind_wait, resolve] at h
    rw [resolve]
    split at h
    case h_1 => cases h
    case h_2 =>
      split at h
      case h_1 => cases h
      case h_2 => exact ih _ h
      case h_3 => cases h

/-- An action that carries out a task comes to what the task comes to. -/
theorem Progress.resolve_request {task : Task}
    {carryOut : (task : Task) → State → Option (Outcome task.Result)} {a b : State}
    {result : task.Result}
    (h : (Action.request task session).resolve session carryOut a = some (.ok result, b)) :
  carryOut task a = some (.ok result, b)
  := by
  simp only [Action.request, resolve, State.enter, State.leave] at h
  split at h
  case h_1 => cases h
  case h_2 hmid =>
    cases h
    exact hmid
  case h_3 => cases h

namespace Task

variable {task : Task} {state : State} {x y : Outcome task.Result}

theorem perform_succ {fuel : Nat} (h : task.perform session fuel state = some x) :
  task.perform session (fuel + 1) state = some x
  := by
  induction fuel generalizing task state with
  | zero => cases h
  | succ fuel ih =>
    rw [perform] at h ⊢
    split at h
    case h_1 => exact h
    case h_2 =>
      split at h
      case h_1 => cases h
      case h_2 hresolve =>
        rw [Progress.resolve_mono ih hresolve]
        exact h

/-- A task comes to the same with more fuel. -/
theorem perform_mono {fuel more : Nat} (hle : fuel ≤ more)
    (h : task.perform session fuel state = some x) :
  task.perform session more state = some x
  := by
  induction hle with
  | refl => exact h
  | step _ ih => exact perform_succ ih

/-- A task comes to one outcome only. -/
theorem perform_unique {fuel fuel' : Nat} (h : task.perform session fuel state = some x)
    (h' : task.perform session fuel' state = some y) :
  x = y
  := by
  have hx := perform_mono (Nat.le_max_left fuel fuel') h
  have hy := perform_mono (Nat.le_max_right fuel fuel') h'
  exact Option.some.inj (hx.symm.trans hy)

end Task

namespace Progress

variable {α : Type} {progress : Progress α} {fuel fuel' : Nat} {state : State} {x y : Outcome α}

/-- A computation comes to the same with more fuel. -/
theorem resolve_le (hle : fuel ≤ fuel')
    (h : progress.resolve session (Task.perform session fuel) state = some x) :
  progress.resolve session (Task.perform session fuel') state = some x
  := resolve_mono (Task.perform_mono hle) h

/-- A computation comes to one outcome only. -/
theorem resolve_unique
    (h : progress.resolve session (Task.perform session fuel) state = some x)
    (h' : progress.resolve session (Task.perform session fuel') state = some y) :
  x = y
  := by
  have hx := resolve_le (Nat.le_max_left fuel fuel') h
  have hy := resolve_le (Nat.le_max_right fuel fuel') h'
  exact Option.some.inj (hx.symm.trans hy)

end Progress

/-! ### The machine -/

/-- The outcome of a computation, or of a failure that has come up already. -/
def Progress.outcome {α : Type} (session : Session) (fuel : Nat) (state : State) :
    Except Failure (Progress α) → Option (Outcome α)
  | .ok progress => progress.resolve session (Task.perform session fuel) state
  | .error failure => some (.error failure, state)

/-- What the computations that wait come to, from the outcome of the first. -/
def Waiting.finish (session : Session) (fuel : Nat) {root task : Task} :
    Waiting root task → Outcome task.Result → Option (Outcome root.Result)
  | .done, (outcome, state) => some (outcome, root.settle session state outcome)
  | .computation frame? next rest, (outcome, state) =>
    (Progress.outcome session fuel ((task.settle session state outcome).leave frame?)
      (outcome.map next)).bind (rest.finish session fuel)

variable {root task : Task}

theorem Progress.outcome_mono {α : Type} {fuel more : Nat} (hle : fuel ≤ more)
    {progress : Except Failure (Progress α)} {state : State} {x : Outcome α}
    (h : outcome session fuel state progress = some x) :
  outcome session more state progress = some x
  := by
  cases progress with
  | error failure => exact h
  | ok progress => exact resolve_mono (Task.perform_mono hle) h

theorem Waiting.finish_mono {fuel more : Nat} (hle : fuel ≤ more)
    {waiting : Waiting root task} {outcome : Outcome task.Result} {x : Outcome root.Result}
    (h : waiting.finish session fuel outcome = some x) :
  waiting.finish session more outcome = some x
  := by
  induction waiting with
  | done => exact h
  | computation frame? next rest ih =>
    obtain ⟨outcome, state⟩ := outcome
    obtain ⟨y, hy, hx⟩ := Option.bind_eq_some_iff.mp h
    exact Option.bind_eq_some_iff.mpr ⟨y, Progress.outcome_mono hle hy, ih hx⟩

/-- Whatever the machine comes to, the recursion comes to as well. -/
theorem Progress.outcome_of_drive {fuel : Nat} {progress : Except Failure (Progress task.Result)}
    {state : State} {waiting : Waiting root task} {x : Outcome root.Result}
    (h : drive session fuel progress state waiting = some x) :
  ∃ n, (outcome session n state progress).bind (waiting.finish session n) = some x
  := by
  induction fuel generalizing task progress state with
  | zero => cases h
  | succ fuel ih =>
    rw [drive.eq_def] at h
    dsimp only at h
    split at h
    case h_1 operation next =>
      split at h
      case h_1 result mid happly =>
        obtain ⟨n, hn⟩ := ih h
        use n
        rw [outcome, resolve, happly]
        exact hn
      case h_2 failure mid happly =>
        obtain ⟨n, hn⟩ := ih h
        use n
        rw [outcome, resolve, happly]
        exact hn
    case h_2 frame? inner next =>
      split at h
      case h_1 failure henter =>
        obtain ⟨n, hn⟩ := ih h
        use n
        rw [outcome, resolve, henter]
        exact hn
      case h_2 inside henter =>
        split at h
        case h_1 result hknown =>
          obtain ⟨n, hn⟩ := ih h
          obtain ⟨y, hy, hx⟩ := Option.bind_eq_some_iff.mp hn
          use n + 1
          have hperform : inner.perform session (n + 1) inside = some (.ok result, inside) := by
            rw [Task.perform, hknown]
          rw [outcome, resolve, henter]
          simp only [hperform]
          exact Option.bind_eq_some_iff.mpr
            ⟨y, outcome_mono (Nat.le_succ n) hy, Waiting.finish_mono (Nat.le_succ n) hx⟩
        case h_2 hknown =>
          obtain ⟨n, hn⟩ := ih h
          obtain ⟨⟨inner', mid⟩, hinner, hrest⟩ := Option.bind_eq_some_iff.mp hn
          obtain ⟨y, hy, hx⟩ := Option.bind_eq_some_iff.mp hrest
          use n + 1
          have hperform : inner.perform session (n + 1) inside
              = some (inner', inner.settle session mid inner') := by
            rw [Task.perform, hknown]
            change outcome session n _ (.ok _) = _ at hinner
            rw [outcome] at hinner
            simp only [hinner]
          refine Option.bind_eq_some_iff.mpr ⟨y, ?_, Waiting.finish_mono (Nat.le_succ n) hx⟩
          rw [outcome, resolve, henter]
          simp only [hperform]
          have hy := outcome_mono (Nat.le_succ n) hy
          cases inner' with
          | ok result => exact hy
          | error failure => exact hy
    case h_3 result =>
      cases waiting with
      | done => exact ⟨0, h⟩
      | computation frame? next rest =>
        obtain ⟨n, hn⟩ := ih h
        exact ⟨n, hn⟩
    case h_4 failure =>
      cases waiting with
      | done => exact ⟨0, h⟩
      | computation frame? next rest =>
        obtain ⟨n, hn⟩ := ih h
        exact ⟨n, hn⟩

/-- The machine comes to the outcome of a computation after some steps. -/
theorem Progress.drive_of_outcome {n : Nat} {progress : Except Failure (Progress task.Result)}
    {state : State} {result : Except Failure task.Result} {after : State}
    (h : outcome session n state progress = some (result, after)) :
  ∃ k, ∀ {root : Task} (waiting : Waiting root task) (fuel : Nat),
    drive session (fuel + k) progress state waiting
      = drive session fuel (result.map .finished) after waiting
  := by
  induction n using Nat.strongRecOn generalizing task progress state after with
  | ind n ihn =>
  obtain failure | progress := progress
  · cases h
    exact ⟨0, fun _ _ => rfl⟩
  induction progress generalizing state with
  | finished result =>
    cases h
    exact ⟨0, fun _ _ => rfl⟩
  | step operation next ih =>
    rw [outcome, resolve] at h
    split at h
    case h_1 r mid happly =>
      obtain ⟨k, hk⟩ := ih r h
      use k + 1
      intro root waiting fuel
      rw [← Nat.add_assoc, drive.eq_def]
      simp only [happly]
      exact hk waiting fuel
    case h_2 failure mid happly =>
      cases h
      use 1
      intro root waiting fuel
      rw [drive.eq_def]
      simp only [happly]
      rfl
  | wait frame? inner next ih =>
    rw [outcome, resolve] at h
    split at h
    case h_1 failure henter =>
      cases h
      use 1
      intro root waiting fuel
      rw [drive.eq_def]
      simp only [henter]
      rfl
    case h_2 inside henter =>
      cases n with
      | zero => cases h
      | succ n =>
        rw [Task.perform] at h
        cases hknown : inner.known? session inside with
        | some known =>
          rw [hknown] at h
          obtain ⟨k, hk⟩ := ih known h
          use k + 1
          intro root waiting fuel
          rw [← Nat.add_assoc, drive.eq_def]
          simp only [henter, hknown]
          exact hk waiting fuel
        | none =>
          rw [hknown] at h
          dsimp only at h
          cases hresolve : (inner.action inside session).resolve session
              (Task.perform session n) (inner.begin inside) with
          | none =>
            rw [hresolve] at h
            cases h
          | some ended =>
            obtain ⟨outcome', ended⟩ := ended
            rw [hresolve] at h
            -- The machine first drives the inner task to its end, then hands it on.
            have hinner : outcome session n (inner.begin inside) (.ok _) = _ := hresolve
            obtain ⟨k₁, hk₁⟩ := ihn n (Nat.lt_succ_self n) hinner
            cases outcome' with
            | ok value =>
              obtain ⟨k₂, hk₂⟩ := ih value h
              use k₂ + 1 + k₁ + 1
              intro root waiting fuel
              rw [← Nat.add_assoc, drive.eq_def]
              simp only [henter, hknown]
              rw [← Nat.add_assoc, hk₁, ← Nat.add_assoc, drive.eq_def]
              exact hk₂ waiting fuel
            | error failure =>
              cases h
              use 1 + k₁ + 1
              intro root waiting fuel
              rw [← Nat.add_assoc, drive.eq_def]
              simp only [henter, hknown]
              rw [← Nat.add_assoc, hk₁, drive.eq_def]
              rfl

/-! ### Agreement -/

/-- The machine comes to the same with more fuel. -/
theorem Progress.drive_succ {fuel : Nat} {progress : Except Failure (Progress task.Result)}
    {state : State} {waiting : Waiting root task} {x : Outcome root.Result}
    (h : drive session fuel progress state waiting = some x) :
  drive session (fuel + 1) progress state waiting = some x
  := by
  induction fuel generalizing task progress state with
  | zero => cases h
  | succ fuel ih =>
    rw [drive.eq_def] at h ⊢
    dsimp only at h ⊢
    split at h
    case h_1 operation next => split at h <;> exact ih h
    case h_2 frame? inner next =>
      split at h
      case h_1 => exact ih h
      case h_2 => split at h <;> exact ih h
    case h_3 =>
      cases waiting with
      | done => exact h
      | computation frame? next rest => exact ih h
    case h_4 =>
      cases waiting with
      | done => exact h
      | computation frame? next rest => exact ih h

theorem Task.run_mono {fuel more : Nat} (hle : fuel ≤ more) {state : State}
    {x : Outcome task.Result} (h : task.run session fuel state = some x) :
  task.run session more state = some x
  := by
  induction hle with
  | refl => exact h
  | step _ ih =>
    rw [run] at ih ⊢
    split at ih
    case h_1 => exact ih
    case h_2 => exact Progress.drive_succ ih

/-- A task comes to the same by the machine as by recursion. -/
theorem Task.run_iff {state : State} {x : Outcome task.Result} :
  (∃ fuel, task.run session fuel state = some x)
    ↔ ∃ fuel, task.perform session fuel state = some x
  := by
  constructor
  · rintro ⟨fuel, h⟩
    rw [run] at h
    split at h
    case h_1 result hknown =>
      use 1
      rw [perform, hknown]
      exact h
    case h_2 hknown =>
      obtain ⟨n, hn⟩ := Progress.outcome_of_drive h
      obtain ⟨y, hy, hx⟩ := Option.bind_eq_some_iff.mp hn
      use n + 1
      rw [Progress.outcome] at hy
      rw [perform, hknown]
      simp only [hy]
      exact hx
  · rintro ⟨fuel, h⟩
    cases fuel with
    | zero => cases h
    | succ fuel =>
      rw [perform] at h
      split at h
      case h_1 result hknown =>
        use 0
        rw [run, hknown]
        exact h
      case h_2 hknown =>
        split at h
        case h_1 => cases h
        case h_2 outcome ended hresolve =>
          have hinner : Progress.outcome session fuel (task.begin state) (.ok _) = _ :=
            hresolve
          obtain ⟨k, hk⟩ := Progress.drive_of_outcome hinner
          use 1 + k
          rw [run, hknown]
          simp only [hk]
          rw [Progress.drive.eq_def, ← h]
          cases outcome <;> rfl

/-- A computation comes to the same with any other way of carrying out tasks that comes to
the same for every task. -/
theorem Progress.exists_resolve {α : Type} {progress : Progress α}
    {f g : Nat → (task : Task) → State → Option (Outcome task.Result)}
    (hmono : ∀ {n m}, n ≤ m → ∀ {task state x}, g n task state = some x →
      g m task state = some x)
    (hfg : ∀ {n task state x}, f n task state = some x → ∃ m, g m task state = some x)
    {n : Nat} {state : State} {x : Outcome α}
    (h : progress.resolve session (f n) state = some x) :
  ∃ m, progress.resolve session (g m) state = some x
  := by
  induction progress generalizing state with
  | finished result => exact ⟨0, h⟩
  | step operation next ih =>
    simp only [resolve] at h ⊢
    split at h
    case h_1 result mid happly =>
      obtain ⟨m, hm⟩ := ih result h
      exact ⟨m, hm⟩
    case h_2 failure mid happly => exact ⟨0, h⟩
  | wait frame? task next ih =>
    simp only [resolve] at h ⊢
    split at h
    case h_1 failure henter => exact ⟨0, h⟩
    case h_2 inside henter =>
      split at h
      case h_1 => cases h
      case h_2 result mid hmid =>
        obtain ⟨k, hk⟩ := hfg hmid
        obtain ⟨m, hm⟩ := ih result h
        use max k m
        simp only [hmono (Nat.le_max_left k m) hk]
        exact resolve_mono (hmono (Nat.le_max_right k m)) hm
      case h_3 failure mid hmid =>
        obtain ⟨k, hk⟩ := hfg hmid
        exact ⟨k, by simpa only [hk] using h⟩

/-- An action comes to the same by the machine as by recursion. -/
theorem Action.run_iff {α : Type} {action : Action α} {state : State} {x : Outcome α} :
  (∃ fuel, action.run session fuel state = some x)
    ↔ ∃ fuel, (action session).resolve session (Task.perform session fuel) state = some x
  := by
  constructor
  · rintro ⟨fuel, h⟩
    apply Progress.exists_resolve (g := fun n => Task.perform session n)
      (fun hle _ _ _ => Task.perform_mono hle) _ h
    intro n task state x hn
    exact Task.run_iff.mp ⟨n, hn⟩
  · rintro ⟨fuel, h⟩
    apply Progress.exists_resolve (g := fun n => Task.run session n)
      (fun hle _ _ _ => Task.run_mono hle) _ h
    intro n task state x hn
    exact Task.run_iff.mpr ⟨n, hn⟩

end Jsonnet
