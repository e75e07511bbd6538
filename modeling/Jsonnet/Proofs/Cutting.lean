import Jsonnet.Proofs.Growth
import Jsonnet.Proofs.Running

/-!
# Cutting the recursion through data

Writing a value out and comparing two values go through data as deep as the data are, without a
frame for every level. Here they fail where they are nested as deep as a limit says. Everything
else is carried out as ever.
-/

namespace Jsonnet

/-! ### Tasks that go through data -/

/-- Whether a task goes through data: it writes a value out, or compares two values. -/
def Task.isData : Task → Bool
  | .document _ | .equal .. | .order .. => true
  | _ => false

/-- How many tasks that go through data are nested directly above a task, if there are `depth` of
them above the one that asks for it. -/
def Task.depthBelow (outer : Task) (depth : Nat) (inner : Task) : Nat :=
  if outer.isData && inner.isData then depth + 1 else 0

/-- Whether a task is one that is cut, with `depth` tasks directly above it that go through
data. -/
def Task.isCut (limit depth : Nat) (task : Task) : Bool :=
  task.isData && decide (limit ≤ depth)

/-- Carries out a task by recursion like `Task.perform`, but what goes through data fails with
`cut` where `limit` tasks that do so are nested already. -/
def Task.performCut (session : Session) (cut : Failure) (limit : Nat) :
    Nat → Nat → (task : Task) → State → Option (Outcome task.Result)
  | 0, _, _, _ => none
  | fuel + 1, depth, task, state =>
    if task.isCut limit depth then some (.error cut, state)
    else
      match task.known? session state with
      | some result => some (.ok result, state)
      | none =>
        ((task.action state session).resolve session
            (fun inner =>
              Task.performCut session cut limit fuel (task.depthBelow depth inner) inner)
            (task.begin state)).map
          fun ended => (ended.1, task.settle session ended.2 ended.1)

/-- Runs an action that waits for no other, with the recursion through data cut. -/
def Action.runCut {α : Type} (action : Action α) (session : Session) (cut : Failure)
    (limit fuel : Nat) (state : State) : Option (Outcome α) :=
  (action session).resolve session (Task.performCut session cut limit fuel 0) state

/-! ### Their runs -/

section

variable {session : Session} {cut : Failure} {limit depth fuel more : Nat} {task : Task}
  {a b : State} {x : Outcome task.Result}

theorem Task.performCut_cut (h : task.isCut limit depth = true) :
  task.performCut session cut limit (fuel + 1) depth a = some (.error cut, a)
  := by
  rw [performCut, if_pos h]

theorem Task.performCut_known (h : task.isCut limit depth = false) {result : task.Result}
    (known : task.known? session a = some result) :
  task.performCut session cut limit (fuel + 1) depth a = some (.ok result, a)
  := by
  rw [performCut, h, if_neg Bool.false_ne_true, known]

theorem Task.performCut_unknown (h : task.isCut limit depth = false)
    (unknown : task.known? session a = none) :
  task.performCut session cut limit (fuel + 1) depth a
    = ((task.action a session).resolve session
        (fun inner => inner.performCut session cut limit fuel (task.depthBelow depth inner))
        (task.begin a)).map fun ended => (ended.1, task.settle session ended.2 ended.1)
  := by
  rw [performCut, h, if_neg Bool.false_ne_true, unknown]

/-- A task that comes to an outcome is cut, or its result is known, or its action comes to an
outcome. -/
theorem Task.performCut_cases
    (h : task.performCut session cut limit (fuel + 1) depth a = some x) :
  (task.isCut limit depth = true ∧ x = (.error cut, a)) ∨ task.isCut limit depth = false ∧
    ((∃ result, task.known? session a = some result ∧ x = (.ok result, a)) ∨
      task.known? session a = none ∧ ∃ ended,
        (task.action a session).resolve session
          (fun inner => inner.performCut session cut limit fuel (task.depthBelow depth inner))
          (task.begin a) = some ended ∧
        x = (ended.1, task.settle session ended.2 ended.1))
  := by
  cases hcut : task.isCut limit depth with
  | true =>
    rw [performCut_cut hcut] at h
    cases h
    exact .inl ⟨rfl, rfl⟩
  | false =>
    refine .inr ⟨rfl, ?_⟩
    cases known : task.known? session a with
    | some result =>
      rw [performCut_known hcut known] at h
      cases h
      exact .inl ⟨result, rfl, rfl⟩
    | none =>
      rw [performCut_unknown hcut known, Option.map_eq_some_iff] at h
      obtain ⟨ended, hended, rfl⟩ := h
      exact .inr ⟨rfl, ended, hended, rfl⟩

/-- A task only adds to a state. -/
theorem Task.performCut_grows (h : task.performCut session cut limit fuel depth a = some x) :
  a.Grows session x.2
  := by
  induction fuel generalizing depth task a with
  | zero => cases h
  | succ fuel ih =>
    obtain ⟨-, rfl⟩ | ⟨-, ⟨_, -, rfl⟩ | ⟨unknown, ended, hended, rfl⟩⟩ := performCut_cases h
    · exact .refl session a
    · exact .refl session a
    · exact (Progress.grows (fun h => ih h) hended).settle unknown ended.1

/-- A task comes to the same with more fuel. -/
theorem Task.performCut_mono (hle : fuel ≤ more)
    (h : task.performCut session cut limit fuel depth a = some x) :
  task.performCut session cut limit more depth a = some x
  := by
  induction fuel generalizing depth task a more with
  | zero => cases h
  | succ fuel ih =>
    obtain ⟨more, rfl⟩ : ∃ m, more = m + 1 := Nat.exists_eq_add_one.mpr (by omega)
    obtain ⟨hcut, rfl⟩ | ⟨hcut, ⟨_, known, rfl⟩ | ⟨unknown, ended, hended, rfl⟩⟩ :=
      performCut_cases h
    · exact performCut_cut hcut
    · exact performCut_known hcut known
    · have hmore := Progress.resolve_mono (fun h => ih (Nat.le_of_succ_le_succ hle) h) hended
      rw [performCut_unknown hcut unknown, hmore, Option.map_some]

/-- A cut that lies deeper than tasks are nested changes nothing. -/
theorem Task.performCut_eq_perform (h : depth + fuel ≤ limit) :
  task.performCut session cut limit fuel depth a = task.perform session fuel a
  := by
  induction fuel generalizing depth task a with
  | zero => rfl
  | succ fuel ih =>
    have hcut : task.isCut limit depth = false := by
      rw [isCut, decide_eq_false (by omega), Bool.and_false]
    have hinner : (fun inner : Task =>
        inner.performCut session cut limit fuel (task.depthBelow depth inner))
          = Task.perform session fuel := by
      funext inner state
      apply ih
      rw [depthBelow]
      split <;> omega
    cases known : task.known? session a with
    | some result => rw [performCut_known hcut known, perform, known]
    | none =>
      rw [performCut_unknown hcut known, perform, known, hinner]
      cases (task.action a session).resolve session (Task.perform session fuel) (task.begin a) <;> rfl

end

/-- What an action comes to, it comes to with a cut that lies deep enough. -/
theorem Action.run_of_deep_cut {session : Session} {α : Type} {action : Action α} {fuel : Nat}
    {a : State} {x : Outcome α} (h : action.run session fuel a = some x) (cut : Failure) :
  ∃ deep, ∀ limit ≥ deep, action.runCut session cut limit deep a = some x
  := by
  obtain ⟨deep, hdeep⟩ := Action.run_iff.mp ⟨fuel, h⟩
  use deep
  intro limit hlimit
  apply Progress.resolve_mono _ hdeep
  intro task state y hy
  rw [Task.performCut_eq_perform (by omega)]
  exact hy

/-! ### Moments -/

/-- The moments of a computation while the recursion through data is cut: the task that is about
to be carried out, and the state at this moment. `depths` says how many tasks that go through data
are nested directly above the tasks that the computation asks for. -/
inductive Progress.CutMoment (session : Session) (cut : Failure) (limit : Nat) :
    {α : Type} → (Task → Nat) → Progress α → State → Task → State → Prop where
  | step {α : Type} {depths : Task → Nat} {operation : Operation}
      {next : operation.Result → Progress α} {a b s : State} {result : operation.Result}
      {task : Task} (taken : operation.apply session a = (.ok result, b))
      (later : CutMoment session cut limit depths (next result) b task s) :
    CutMoment session cut limit depths (.step operation next) a task s
  | asked {α : Type} {depths : Task → Nat} {frame? : Option Frame} {task : Task}
      {next : task.Result → Progress α} {a b : State} (enters : a.enter frame? = .ok b) :
    CutMoment session cut limit depths (.wait frame? task next) a task b
  | inside {α : Type} {depths : Task → Nat} {frame? : Option Frame} {outer task : Task}
      {next : outer.Result → Progress α} {a b s : State} (enters : a.enter frame? = .ok b)
      (uncut : outer.isCut limit (depths outer) = false) (unknown : outer.known? session b = none)
      (inner : CutMoment session cut limit (outer.depthBelow (depths outer))
        (outer.action b session) (outer.begin b) task s) :
    CutMoment session cut limit depths (.wait frame? outer next) a task s
  | later {α : Type} {depths : Task → Nat} {frame? : Option Frame} {first task : Task}
      {next : first.Result → Progress α} {a b c s : State} {result : first.Result} {fuel : Nat}
      (enters : a.enter frame? = .ok b)
      (ends : first.performCut session cut limit fuel (depths first) b = some (.ok result, c))
      (rest : CutMoment session cut limit depths (next result) (c.leave frame?) task s) :
    CutMoment session cut limit depths (.wait frame? first next) a task s

/-! ### Objects with few literals -/

/-- Whether a field is not read from an object with 2³² literals or more. -/
def Task.FewLeaves : Task → Prop
  | .readField object _ _ _ => object.leaves.length < 2 ^ 32
  | _ => True

/-- Whether a computation reads no field from an object with 2³² literals or more, while the
recursion through data is cut. -/
def Progress.ReadsFew (session : Session) (cut : Failure) (limit : Nat) {α : Type}
    (depths : Task → Nat) (p : Progress α) (a : State) : Prop :=
  ∀ task s, p.CutMoment session cut limit depths a task s → task.FewLeaves

/-- Whether a task reads no field from such an object, nor does anything while it is carried
out. -/
def Task.ReadsFew (session : Session) (cut : Failure) (limit depth : Nat) (task : Task)
    (a : State) : Prop :=
  task.FewLeaves ∧ (task.isCut limit depth = false → task.known? session a = none →
    (task.action a session).ReadsFew session cut limit (task.depthBelow depth) (task.begin a))

namespace Progress.ReadsFew

variable {session : Session} {cut : Failure} {limit : Nat} {α : Type} {depths : Task → Nat}
  {a b c : State}

/-- A computation that is over asks for nothing. -/
theorem finished (x : α) :
  (Progress.finished x).ReadsFew session cut limit depths a
  := by
  rintro task s ⟨⟩

section

variable {operation : Operation} {next : operation.Result → Progress α}

theorem step (h : ∀ result b, operation.apply session a = (.ok result, b) →
    (next result).ReadsFew session cut limit depths b) :
  (Progress.step operation next).ReadsFew session cut limit depths a
  := by
  intro task s moment
  cases moment with
  | step taken later => exact h _ _ taken task s later

theorem of_step (h : (Progress.step operation next).ReadsFew session cut limit depths a)
    {result : operation.Result} (taken : operation.apply session a = (.ok result, b)) :
  (next result).ReadsFew session cut limit depths b
  := fun task s later => h task s (.step taken later)

end

section

variable {frame? : Option Frame} {first : Task} {next : first.Result → Progress α}

theorem wait (hfirst : ∀ b, a.enter frame? = .ok b →
      first.ReadsFew session cut limit (depths first) b)
    (hnext : ∀ b fuel result c, a.enter frame? = .ok b →
      first.performCut session cut limit fuel (depths first) b = some (.ok result, c) →
      (next result).ReadsFew session cut limit depths (c.leave frame?)) :
  (Progress.wait frame? first next).ReadsFew session cut limit depths a
  := by
  intro task s moment
  cases moment with
  | asked enters => exact (hfirst _ enters).1
  | inside enters uncut unknown inner => exact (hfirst _ enters).2 uncut unknown task s inner
  | later enters ends rest => exact hnext _ _ _ _ enters ends task s rest

variable (h : (Progress.wait frame? first next).ReadsFew session cut limit depths a)
  (enters : a.enter frame? = .ok b)

include h enters

theorem task_of_wait :
  first.ReadsFew session cut limit (depths first) b
  := ⟨h _ _ (.asked enters),
    fun uncut unknown task s inner => h task s (.inside enters uncut unknown inner)⟩

theorem next_of_wait {fuel : Nat} {result : first.Result}
    (ends : first.performCut session cut limit fuel (depths first) b = some (.ok result, c)) :
  (next result).ReadsFew session cut limit depths (c.leave frame?)
  := fun task s rest => h task s (.later enters ends rest)

end

end Progress.ReadsFew

end Jsonnet
