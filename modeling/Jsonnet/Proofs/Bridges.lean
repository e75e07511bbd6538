import Jsonnet.Proofs.Compilations
import Jsonnet.Proofs.Operations

/-!
# Runs as sequences of operations

A run is a sequence of operations, each taken in the state that the one before has left behind but
for what happens in between: frames are entered and left, results are kept, and the host interns
names. None of that touches the table of slots, and a thunk that is computed stays computed. So
what an operation brings about with slots and thunks is found in every later state.
-/

namespace Jsonnet

/-! ### What later states keep -/

namespace State

/-- What is still there of thunks and slots in a state that comes later. A thunk that is forced
while it is computed may get a value twice. A slot is taken to stay only where slots have numbers
of their own. -/
structure LastsIn (a b : State) : Prop where
  pending : ∀ {i : Nat} {suspension : Suspension}, a.thunks[i]? = some (.pending suspension) →
    b.thunks[i]? = some (.pending suspension) ∨ ∃ value, b.thunks[i]? = some (.ready value)
  ready : ∀ {i : Nat} {value : Value}, a.thunks[i]? = some (.ready value) →
    ∃ value', b.thunks[i]? = some (.ready value')
  slotCount : a.slots.size ≤ b.slots.size
  slot : b.slots.size ≤ maxSlot + 1 →
    ∀ {i : Nat} {deferred : Deferred}, a.slots.entries[i]? = some deferred →
      b.slots.entries[i]? = some deferred

/-- Whether a state comes later without any slot having been bound in between. -/
structure Rests (a b : State) : Prop extends a.LastsIn b where
  slots : b.slots = a.slots

section

variable {session : Session} {a b c : State}

theorem Grows.lastsIn (h : a.Grows session b) :
  a.LastsIn b
  where
  pending := h.pending
  ready hready := ⟨_, h.ready hready⟩
  slotCount := h.slotCount
  slot := h.slot

theorem LastsIn.trans (hab : a.LastsIn b) (hbc : b.LastsIn c) :
  a.LastsIn c
  where
  pending h := by
    obtain h | ⟨value, h⟩ := hab.pending h
    · exact hbc.pending h
    · exact .inr (hbc.ready h)
  ready h := by
    obtain ⟨value, h⟩ := hab.ready h
    exact hbc.ready h
  slotCount := hab.slotCount.trans hbc.slotCount
  slot few _ _ h := hbc.slot few (hab.slot (hbc.slotCount.trans few) h)

/-- No thunk is taken away. -/
theorem LastsIn.size_thunks (h : a.LastsIn b) :
  a.thunks.size ≤ b.thunks.size
  := by
  by_contra hlt
  have bound : b.thunks.size < a.thunks.size := Nat.lt_of_not_le hlt
  have missing : b.thunks[b.thunks.size]? = none := Array.getElem?_eq_none (Nat.le_refl _)
  have there : a.thunks[b.thunks.size]? = some a.thunks[b.thunks.size] :=
    Array.getElem?_eq_getElem bound
  cases hcell : a.thunks[b.thunks.size] with
  | pending suspension =>
    rw [hcell] at there
    obtain h | ⟨value, h⟩ := h.pending there <;> cases missing.symm.trans h
  | ready value =>
    rw [hcell] at there
    obtain ⟨value', h⟩ := h.ready there
    cases missing.symm.trans h

/-- Nothing changes but what thunks and slots do not depend on. -/
theorem Rests.of_thunks (slots : b.slots = a.slots) (thunks : b.thunks = a.thunks) :
  a.Rests b
  where
  pending h := .inl (thunks ▸ h)
  ready h := ⟨_, thunks ▸ h⟩
  slotCount := by rw [slots]
  slot _ _ _ h := slots ▸ h
  slots := slots

theorem Rests.refl (a : State) :
  a.Rests a
  := .of_thunks rfl rfl

theorem Rests.trans (hab : a.Rests b) (hbc : b.Rests c) :
  a.Rests c
  := { hab.toLastsIn.trans hbc.toLastsIn with slots := hbc.slots.trans hab.slots }

/-- How many slots there are after an operation. -/
theorem Rests.size_apply (h : a.Rests b) (session : Session) (operation : Operation) :
  (operation.apply session b).2.slots.size = a.slots.size + operation.reserved
  := by
  rw [operation.size_slots, h.slots]

theorem Rests.enter {frame? : Option Frame} (h : a.enter frame? = .ok b) :
  a.Rests b
  := by
  obtain ⟨stack, rfl, -⟩ := enter_eq (c := a) h
  exact .of_thunks rfl rfl

theorem Rests.leave (a : State) (frame? : Option Frame) :
  a.Rests (a.leave frame?)
  := by
  cases frame? <;> exact .of_thunks rfl rfl

theorem Rests.begin (task : Task) (a : State) :
  a.Rests (task.begin a)
  := by
  cases task <;> exact .of_thunks rfl rfl

/-- A value that is kept takes the place of what the thunk waits with, or of a value that it has
got while it was computed. -/
theorem Rests.keepThunk (a : State) (thunk : ThunkId) (value : Value) :
  a.Rests (a.keepThunk thunk value)
  := by
  have kept : ∀ {i : Nat} {cell : Cell}, a.thunks[i]? = some cell →
      (a.keepThunk thunk value).thunks[i]? = some cell ∨
        (a.keepThunk thunk value).thunks[i]? = some (.ready value) := by
    intro i cell h
    rw [State.keepThunk, Array.getElem?_setIfInBounds]
    split
    case isFalse => exact .inl h
    case isTrue heq =>
      rw [if_pos (heq ▸ (Array.getElem?_eq_some_iff.mp h).choose)]
      exact .inr rfl
  refine { refl a with pending := ?_, ready := ?_ }
  · intro i suspension h
    exact (kept h).imp_right fun h => ⟨value, h⟩
  · intro i old h
    obtain h | h := kept h
    · exact ⟨old, h⟩
    · exact ⟨value, h⟩

theorem Rests.settle (session : Session) (task : Task) (a : State)
    (outcome : Except Failure task.Result) :
  a.Rests (task.settle session a outcome)
  := by
  cases task with
  | force thunk =>
    cases outcome with
    | error failure => exact refl a
    | ok value =>
      rw [Task.settle]
      split
      · exact keepThunk a thunk value
      · exact refl a
  | field object leaf depth name site =>
    cases outcome with
    | error failure => exact refl a
    | ok value =>
      rw [Task.settle]
      split <;> exact .of_thunks rfl rfl
  | _ => exact .of_thunks rfl rfl

end

end State

/-! ### The way from one state to another -/

/-- Whether operations bridge two states of a run: what happens between them binds no slot. -/
inductive Session.Bridges (session : Session) :
    State → List (Operation × State) → State → Prop where
  | rest {a b : State} (rests : a.Rests b) : Bridges session a [] b
  | step {a s b : State} {operation : Operation} {taken : List (Operation × State)}
      (rests : a.Rests s) (rest : Bridges session (operation.apply session s).2 taken b) :
    Bridges session a ((operation, s) :: taken) b

/-- The number of slots that are reserved by some operations. -/
def reserved (taken : List (Operation × State)) : Nat :=
  (taken.map fun step => step.1.reserved).sum

section

variable {session : Session} {a b c s : State} {taken taken' : List (Operation × State)}

theorem reserved_append (taken taken' : List (Operation × State)) :
  reserved (taken ++ taken') = reserved taken + reserved taken'
  := by
  rw [reserved, List.map_append, List.sum_append]
  rfl

theorem reserved_cons (operation : Operation) (s : State) (taken : List (Operation × State)) :
  reserved ((operation, s) :: taken) = operation.reserved + reserved taken
  := by
  rw [reserved, List.map_cons, List.sum_cons]
  rfl

namespace Session.Bridges

/-- A way goes on from any state that it comes after without a slot being bound. -/
theorem after (rests : a.Rests b) (h : session.Bridges b taken c) :
  session.Bridges a taken c
  := by
  cases h with
  | rest rests' => exact .rest (rests.trans rests')
  | step rests' rest => exact .step (rests.trans rests') rest

theorem append (h : session.Bridges a taken b) (h' : session.Bridges b taken' c) :
  session.Bridges a (taken ++ taken') c
  := by
  induction h with
  | rest rests => exact after rests h'
  | step rests _ ih => exact .step rests (ih h')

/-- A way can be cut before and after each of its operations. -/
theorem split {operation : Operation}
    (h : session.Bridges a (taken ++ (operation, s) :: taken') c) :
  session.Bridges a taken s ∧ session.Bridges (operation.apply session s).2 taken' c
  := by
  induction taken generalizing a with
  | nil =>
    cases h with
    | step rests rest => exact ⟨.rest rests, rest⟩
  | cons first taken ih =>
    cases h with
    | step rests rest =>
      obtain ⟨before, after⟩ := ih rest
      exact ⟨.step rests before, after⟩

/-- Nothing is lost on the way, and the slots that are reserved are all that is added. -/
theorem lastsIn (h : session.Bridges a taken b) :
  a.LastsIn b ∧ b.slots.size = a.slots.size + reserved taken
  := by
  induction h with
  | rest rests =>
    refine ⟨rests.toLastsIn, ?_⟩
    rw [rests.slots]
    rfl
  | @step a s b operation taken rests _ ih =>
    obtain ⟨rest, size⟩ := ih
    refine ⟨(rests.toLastsIn.trans (operation.grows session s).lastsIn).trans rest, ?_⟩
    rw [size, rests.size_apply, reserved_cons, Nat.add_assoc]

/-- There are no fewer slots at the end than at any operation on the way. -/
theorem size_slots_le (h : session.Bridges a taken b) {step : Operation × State}
    (hstep : step ∈ taken) :
  step.2.slots.size ≤ b.slots.size
  := by
  obtain ⟨earlier, later, rfl⟩ := List.append_of_mem hstep
  exact ((step.1.grows session step.2).slotCount).trans h.split.2.lastsIn.1.slotCount

end Session.Bridges

end

/-! ### Runs -/

section

variable {session : Session} {a b : State}

/-- The operations of a computation bridge its states if those of tasks do. The computation need
not come to an end. -/
theorem Progress.bridges {α : Type} (progress : Progress α)
    {carryOut : (task : Task) → State → Option (Outcome task.Result)}
    {operationsOf : Task → State → List (Operation × State)}
    (htask : ∀ task {a}, (∃ b, session.Bridges a (operationsOf task a) b) ∧
      ∀ {outcome b}, carryOut task a = some (outcome, b) →
        session.Bridges a (operationsOf task a) b) :
  (∃ b, session.Bridges a (progress.operations session carryOut operationsOf a) b) ∧
    ∀ {outcome b}, progress.resolve session carryOut a = some (outcome, b) →
      session.Bridges a (progress.operations session carryOut operationsOf a) b
  := by
  induction progress generalizing a with
  | finished result =>
    have stays : session.Bridges a [] a := .rest (.refl a)
    refine ⟨⟨a, stays⟩, ?_⟩
    intro outcome b run
    cases run
    exact stays
  | step operation next ih =>
    rw [operations, resolve]
    have first : ∀ taken {b : State}, session.Bridges (operation.apply session a).2 taken b →
        session.Bridges a ((operation, a) :: taken) b := fun _ _ => .step (.refl a)
    rcases happly : operation.apply session a with ⟨failure | result, mid⟩
    · have stops := first [] (.rest (.refl _))
      rw [happly] at stops
      refine ⟨⟨mid, stops⟩, ?_⟩
      intro outcome b run
      cases run
      exact stops
    · simp only [happly] at first
      obtain ⟨⟨z, rest⟩, ends⟩ := ih result (a := mid)
      exact ⟨⟨z, first _ rest⟩, fun run => first _ (ends run)⟩
  | wait frame? task next ih =>
    rw [operations, resolve]
    rcases henter : a.enter frame? with failure | inside
    · refine ⟨⟨a, .rest (.refl a)⟩, ?_⟩
      intro outcome b run
      cases run
      exact .rest (.refl a)
    · have enters := State.Rests.enter henter
      obtain ⟨⟨z, inner⟩, ends⟩ := htask task (a := inside)
      simp only
      rcases hmid : carryOut task inside with _ | ⟨failure | result, mid⟩
      · rw [List.append_nil]
        refine ⟨⟨z, .after enters inner⟩, ?_⟩
        intro outcome b run
        cases run
      · rw [List.append_nil]
        have left := (Session.Bridges.after enters (ends hmid)).append (.rest (.leave mid frame?))
        rw [List.append_nil] at left
        refine ⟨⟨_, left⟩, ?_⟩
        intro outcome b run
        cases run
        exact left
      · have whole : ∀ {taken : List (Operation × State)} {b : State},
            session.Bridges (mid.leave frame?) taken b →
              session.Bridges a (operationsOf task inside ++ taken) b :=
          fun rest => (Session.Bridges.after enters (ends hmid)).append
            (.after (.leave mid frame?) rest)
        obtain ⟨⟨z, rest⟩, ends⟩ := ih result (a := mid.leave frame?)
        exact ⟨⟨z, whole rest⟩, fun run => whole (ends run)⟩

/-- The operations of a task bridge its states. -/
theorem Task.bridges {fuel : Nat} (task : Task) :
  (∃ b, session.Bridges a (task.operations session fuel a) b) ∧
    ∀ {outcome b}, task.perform session fuel a = some (outcome, b) →
      session.Bridges a (task.operations session fuel a) b
  := by
  induction fuel generalizing task a with
  | zero =>
    refine ⟨⟨a, .rest (.refl a)⟩, ?_⟩
    intro outcome b run
    cases run
  | succ fuel ih =>
    rw [operations, perform]
    rcases known : task.known? session a with _ | result
    · obtain ⟨⟨z, inner⟩, ends⟩ := Progress.bridges (task.action a session)
        (fun task _ => ih task) (a := task.begin a)
      have begun := State.Rests.begin task a
      refine ⟨⟨z, .after begun inner⟩, ?_⟩
      intro outcome b run
      simp only at run
      split at run
      case h_1 => cases run
      case h_2 outcome mid hmid =>
        cases run
        have settled := (Session.Bridges.after begun (ends hmid)).append
          (.rest (.settle session task mid outcome))
        rwa [List.append_nil] at settled
    · refine ⟨⟨a, .rest (.refl a)⟩, ?_⟩
      intro outcome b run
      cases run
      exact .rest (.refl a)

/-- The operations of an action bridge its states. -/
theorem Action.bridges {α : Type} (action : Action α) (session : Session) (fuel : Nat)
    (a : State) :
  (∃ b, session.Bridges a (action.operations session fuel a) b) ∧
    ∀ {outcome b}, (action session).resolve session (Task.perform session fuel) a
      = some (outcome, b) → session.Bridges a (action.operations session fuel a) b
  := Progress.bridges (action session) fun task _ => task.bridges

/-- The operations of a run bridge its states. -/
theorem Session.Operates.bridges {taken : List (Operation × State)}
    (h : session.Operates a taken b) :
  session.Bridges a taken b
  := by
  induction h with
  | start => exact .rest (.refl a)
  | action action fuel before run ih => exact ih.append ((action.bridges session fuel _).2 run)
  | @names taken b names before ih =>
    have named := ih.append (.rest (.of_thunks (b := { b with names }) rfl rfl))
    rwa [List.append_nil] at named

end

end Jsonnet
