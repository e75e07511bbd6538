import Mathlib.Data.ENat.Basic
import Jsonnet.Proofs.Twins

/-!
# The limit of the stack

Nothing that is computed depends on how much room there is for frames. So a run with more
room comes to the same outcome, except where the first run fails because there is no room
left. The limit is a threshold: above it the outcome is always the same, and below it the
evaluation always fails with the limit.
-/

namespace Jsonnet

/-! ### More room -/

/-- The state with room for some frames more. -/
def State.withRoom (state : State) (more : Nat) : State :=
  { state with stack := { state.stack with room := state.stack.room + more } }

/-- The outcome in a state with room for some frames more. -/
def Outcome.withRoom {α : Type} (x : Outcome α) (more : Nat) : Outcome α :=
  (x.1, x.2.withRoom more)

/-- A failure because there is no room for a frame below a limit. -/
def Overflows {α : Type} (limit : Nat) (x : Except Failure α) : Prop :=
  ∃ trace, x = .error (.runtime (.stackOverflow limit) (some trace))

section

variable (session : Session) (state : State) (more : Nat)

theorem State.compile_withRoom (context : FrameContext) (file source : String) :
  (state.withRoom more).compile session context file source
    = (state.compile session context file source).withRoom more
  := by
  simp only [compile, withRoom]
  cases (session.frontEnd state.names file source).1 <;> rfl

theorem State.importText_withRoom (directory path : String) (site : Location) :
  (state.withRoom more).importText session.importer directory path site
    = (state.importText session.importer directory path site).withRoom more
  := by
  simp only [importText, withRoom]
  cases (state.imports.resolve session.importer directory path).1 <;> rfl

theorem State.imported_withRoom (directory : String) (path : Name) (site : Location) :
  (state.withRoom more).imported session directory path site
    = (state.imported session directory path site).withRoom more
  := by
  have hnames : (state.withRoom more).names = state.names := rfl
  have himports : (state.withRoom more).imports = state.imports := rfl
  rw [imported, imported, hnames, himports, importText_withRoom]
  cases state.imports.code? directory (state.names.lookup path) with
  | some code => rfl
  | none =>
    rcases state.importText session.importer directory (state.names.lookup path) site
      with ⟨answer, found⟩
    cases answer with
    | error failure => rfl
    | ok file =>
      simp only [Outcome.withRoom]
      rw [compile_withRoom]
      rcases found.compile session (.importing path) file.foundAt file.content
        with ⟨compiled, after⟩
      cases compiled <;> rfl

theorem State.given_withRoom (given : External) (kind : String) (name : Name)
    (context : FrameContext) :
  (state.withRoom more).given session given kind name context
    = (state.given session given kind name context).withRoom more
  := by
  cases given with
  | text value => rfl
  | code source => apply compile_withRoom

theorem State.external_withRoom (name : Name) (given : External) :
  (state.withRoom more).external session name given
    = (state.external session name given).withRoom more
  := by
  have hexternals : (state.withRoom more).externals = state.externals := rfl
  rw [external, external, hexternals, given_withRoom]
  cases state.externals[name]? with
  | some value => rfl
  | none =>
    rcases state.given session given "extvar" name (.external name) with ⟨value, after⟩
    cases value <;> rfl

/-- An operation does the same with more room. -/
theorem Operation.apply_withRoom (op : Operation) :
  op.apply session (state.withRoom more) = (op.apply session state).withRoom more
  := by
  cases op with
  | intern s =>
    simp only [apply, State.withRoom]
    cases state.names.tryIntern s <;> rfl
  | slot id =>
    simp only [apply, State.withRoom]
    cases state.slots.get? id <;> rfl
  | importText directory path site => apply State.importText_withRoom
  | imported directory path site => apply State.imported_withRoom
  | external name given => apply State.external_withRoom
  | argument name given => apply State.given_withRoom
  | _ => rfl

end

/-! ### Runs with more room -/

/-- An outcome that is a failure because there is no room for a frame, or is the same with
more room. -/
def SameWithRoom {α : Type} (limit : Nat) (x : Outcome α) (f : Nat → Option (Outcome α)) : Prop :=
  Overflows limit x.1 ∨ ∀ more, f more = some (x.withRoom more)

namespace State

variable (state : State) (frame? : Option Frame)

/-- There is no room for a frame only if the limit is reached, and with room the frame is
entered with more room as well. -/
theorem enter_withRoom :
  (∃ failure : Failure, state.enter frame? = .error failure ∧
      Overflows state.stack.limit (.error failure : Except Failure Unit)) ∨
    ∃ inside : State, state.enter frame? = .ok inside ∧
      inside.stack.limit = state.stack.limit ∧
      ∀ more, (state.withRoom more).enter frame? = .ok (inside.withRoom more)
  := by
  cases frame? with
  | none => exact .inr ⟨state, rfl, rfl, fun _ => rfl⟩
  | some frame =>
    obtain ⟨names, ⟨frames, room⟩, _, _, _, _, _, _, _⟩ := state
    cases room with
    | zero => exact .inl ⟨_, rfl, _, rfl⟩
    | succ room =>
      refine .inr ⟨_, rfl, ?_, ?_⟩
      · simp only [CallStack.limit, CallStack.depth, List.length_cons]
        omega
      · intro more
        simp only [withRoom, enter, Nat.add_right_comm room 1 more, CallStack.push?]

/-- Leaving a frame with more room. -/
theorem leave_withRoom (more : Nat) :
  (state.withRoom more).leave frame? = (state.leave frame?).withRoom more
  := by
  cases frame? with
  | none => rfl
  | some frame =>
    obtain ⟨names, ⟨frames, room⟩, _, _, _, _, _, _, _⟩ := state
    cases frames with
    | nil => rfl
    | cons first frames =>
      simp only [leave, withRoom, CallStack.pop, Nat.add_right_comm room 1 more]

end State

/-- A computation does the same with more room, if the tasks that it asks for do. -/
theorem Progress.resolve_withRoom {α : Type} {session : Session}
    {carryOut : (task : Task) → State → Option (Outcome task.Result)}
    (hgrows : ∀ {task a outcome b}, carryOut task a = some (outcome, b) → a.Grows session b)
    (hcarry : ∀ {task state x}, carryOut task state = some x →
      SameWithRoom state.stack.limit x fun more => carryOut task (state.withRoom more))
    {progress : Progress α} {state : State} {x : Outcome α}
    (h : progress.resolve session carryOut state = some x) :
  SameWithRoom state.stack.limit x fun more =>
    progress.resolve session carryOut (state.withRoom more)
  := by
  induction progress generalizing state with
  | finished result =>
    cases h
    exact .inr fun _ => rfl
  | step op next ih =>
    have hstack := (op.grows session state).stack
    simp only [resolve, Operation.apply_withRoom] at h ⊢
    rcases happly : op.apply session state with ⟨outcome, after⟩
    rw [happly] at h hstack
    cases outcome with
    | error failure =>
      cases h
      exact .inr fun _ => rfl
    | ok result =>
      rw [← hstack]
      exact ih result h
  | wait frame? task next ih =>
    simp only [resolve] at h ⊢
    obtain ⟨failure, henter, hoverflow⟩ | ⟨inside, henter, hlimit, hroom⟩ :=
      state.enter_withRoom frame?
    · rw [henter] at h
      cases h
      obtain ⟨trace, heq⟩ := hoverflow
      cases heq
      exact .inl ⟨trace, rfl⟩
    · simp only [henter, hroom] at h ⊢
      cases hcarried : carryOut task inside with
      | none =>
        rw [hcarried] at h
        cases h
      | some ended =>
        obtain ⟨outcome, after⟩ := ended
        have hleave := ((hgrows hcarried).leave_eq henter).2
        have htask := hcarry hcarried
        rw [hcarried] at h
        rw [hlimit] at htask
        cases outcome with
        | error failure =>
          cases h
          obtain hoverflow | hmore := htask
          · obtain ⟨trace, heq⟩ := hoverflow
            cases heq
            exact .inl ⟨trace, rfl⟩
          · right
            intro more
            simp only [hmore, Outcome.withRoom, State.leave_withRoom]
        | ok result =>
          obtain hoverflow | hmore := htask
          · obtain ⟨trace, heq⟩ := hoverflow
            cases heq
          · have hstack : (after.leave frame?).stack = state.stack := by rw [hleave]
            simp only [hmore, Outcome.withRoom, State.leave_withRoom]
            rw [← hstack]
            exact ih result h

/-- A task does the same with more room. -/
theorem Task.perform_withRoom {session : Session} {fuel : Nat} {task : Task} {state : State}
    {x : Outcome task.Result} (h : task.perform session fuel state = some x) :
  SameWithRoom state.stack.limit x fun more => task.perform session fuel (state.withRoom more)
  := by
  induction fuel generalizing task state with
  | zero => cases h
  | succ fuel ih =>
    have hknown : ∀ more, task.known? session (state.withRoom more) = task.known? session state := by
      intro more
      cases task <;> rfl
    have haction : ∀ more, task.action (state.withRoom more) = task.action state := by
      intro more
      cases task <;> rfl
    have hbegin : ∀ more, task.begin (state.withRoom more) = (task.begin state).withRoom more := by
      intro more
      cases task <;> rfl
    have hstack : (task.begin state).stack = state.stack := by cases task <;> rfl
    cases hresult : task.known? session state with
    | some result =>
      simp only [perform, hknown, hresult] at h ⊢
      cases h
      exact .inr fun _ => rfl
    | none =>
      simp only [perform, hknown, hresult, haction, hbegin] at h ⊢
      cases hresolve : (task.action state session).resolve session (Task.perform session fuel)
          (task.begin state) with
      | none =>
        rw [hresolve] at h
        cases h
      | some ended =>
        obtain ⟨outcome, after⟩ := ended
        rw [hresolve] at h
        cases h
        have hmore := Progress.resolve_withRoom Task.grows ih hresolve
        rw [hstack] at hmore
        obtain hoverflow | hmore := hmore
        · exact .inl hoverflow
        · right
          intro more
          simp only [hmore, Outcome.withRoom]
          have hsettle : task.settle session (after.withRoom more) outcome
              = (task.settle session after outcome).withRoom more := by
            cases task with
            | force thunk =>
              cases outcome with
              | error failure => rfl
              | ok value => simp only [settle]; split <;> rfl
            | field object leaf depth name site =>
              cases outcome with
              | error failure => rfl
              | ok value => simp only [settle]; split <;> rfl
            | _ => rfl
          rw [hsettle]

/-! ### What a program comes to -/

/-- What a program comes to: its text or a failure, and how often each kind of step was
taken. -/
def Session.Yields (session : Session) (state : State) (code : Code)
    (y : Except Failure String × Counters) : Prop :=
  ∃ fuel x, code.output.run session fuel state = some x ∧ (x.1, x.2.counters) = y

/-- What a program comes to in a new session. -/
def Setup.Yields (setup : Setup) (names : Interner) (code : Code)
    (y : Except Failure String × Counters) : Prop :=
  (setup.start names).1.Yields (setup.start names).2 code y

namespace Session

variable {session : Session} {state : State} {code : Code} {y : Except Failure String × Counters}

theorem yields_iff :
  session.Yields state code y
    ↔ ∃ fuel x, (code.output session).resolve session (Task.perform session fuel) state = some x ∧
      (x.1, x.2.counters) = y
  := by
  constructor
  · rintro ⟨fuel, x, h, hy⟩
    obtain ⟨fuel', h'⟩ := Action.run_iff.mp ⟨fuel, h⟩
    exact ⟨fuel', x, h', hy⟩
  · rintro ⟨fuel, x, h, hy⟩
    obtain ⟨fuel', h'⟩ := Action.run_iff.mpr ⟨fuel, h⟩
    exact ⟨fuel', x, h', hy⟩

/-- A program comes to one thing only. -/
theorem Yields.unique (h : session.Yields state code y) {z : Except Failure String × Counters}
    (h' : session.Yields state code z) :
  y = z
  := by
  obtain ⟨fuel, x, hx, rfl⟩ := yields_iff.mp h
  obtain ⟨fuel', x', hx', rfl⟩ := yields_iff.mp h'
  rw [Progress.resolve_unique hx hx']

/-- With more room a program comes to the same, unless there was no room for a frame. -/
theorem Yields.withRoom (h : session.Yields state code y) :
  Overflows state.stack.limit y.1 ∨ ∀ more, session.Yields (state.withRoom more) code y
  := by
  obtain ⟨fuel, x, hx, rfl⟩ := yields_iff.mp h
  apply (Progress.resolve_withRoom Task.grows Task.perform_withRoom hx).imp_right
  intro hmore more
  exact yields_iff.mpr ⟨fuel, _, hmore more, rfl⟩

/-- A program comes to the same in a session with other settings. -/
theorem Yields.settings {names : Interner} (prepared : session.Prepared names) {limit : Nat}
    (h : session.Yields (.new names limit) code y)
    (settings : Settings) :
  ({ session with settings } : Session).Yields (.new names limit) code y
  := by
  obtain ⟨fuel, x, hx, rfl⟩ := yields_iff.mp h
  have agrees : session.Agrees { session with settings } := ⟨rfl, rfl, rfl, rfl, rfl, rfl, rfl, rfl, rfl⟩
  have hC : (Twins.comparison .exactly session { session with settings } names).Lawful :=
    Twins.lawful_comparison trivial id agrees rfl False.elim False.elim
  have inv := Twins.outset_inv .exactly prepared limit
  obtain ⟨z, hz, hends⟩ := Twins.runs trivial hC inv rfl
    (Twins.output_related id inv ⟨False.elim, False.elim⟩) hx fun h => h.elim
  obtain ⟨heq, w, -, inv'⟩ := Twins.ends_same trivial hends
  refine yields_iff.mpr ⟨fuel, z, hz, ?_⟩
  rw [heq, inv'.twin.counters]

end Session

namespace Setup

variable {setup : Setup} {names : Interner} {code : Code} {y : Except Failure String × Counters}

/-- Nothing else about the settings matters than the limit of the stack. -/
theorem Yields.settings (h : setup.Yields names code y) {settings : Settings}
    (hlimit : settings.maxStack = setup.settings.maxStack) :
  ({ setup with settings } : Setup).Yields names code y
  := by
  obtain ⟨session, start, heq, prepared⟩ := setup.exists_start names
  rw [Yields, heq] at h
  rw [Yields, start_settings, heq, hlimit]
  exact h.settings prepared settings

variable (setup) in
/-- The setup with another limit of the stack. -/
def withLimit (limit : Nat) : Setup :=
  { setup with settings := { setup.settings with maxStack := limit } }

/-- With a greater limit a program comes to the same, unless there was no room for a
frame. -/
theorem Yields.withRoom (h : setup.Yields names code y) :
  Overflows setup.settings.maxStack y.1 ∨
    ∀ more, (setup.withLimit (setup.settings.maxStack + more)).Yields names code y
  := by
  obtain ⟨session, start, heq, prepared⟩ := setup.exists_start names
  rw [Yields, heq] at h
  have hlimit : (State.new start setup.settings.maxStack).stack.limit = setup.settings.maxStack :=
    Nat.zero_add _
  have hroom := h.withRoom
  rw [hlimit] at hroom
  apply hroom.imp_right
  intro hmore more
  rw [withLimit, Yields, start_settings, heq]
  exact (hmore more).settings prepared _

end Setup

end Jsonnet
