import Mathlib.Data.List.Induction
import Jsonnet.Proofs.Growth
import Jsonnet.Proofs.Running

/-!
# Evaluations of kept results

The results of thunks and of fields are kept. The events of a run tell when the evaluation
of such a result begins, succeeds and fails. Once an evaluation has succeeded none of the
same result begins any more, so a result is evaluated to success twice only if one of its
evaluations goes on inside another: an object whose check is going on counts as valid, so
an assertion can come back to what is being evaluated.
-/

namespace Jsonnet

/-! ### Events -/

/-- A result that is kept: of a thunk, or of a field of an object as the literal at some
depth defines it. -/
inductive Memo where
  | thunk (thunk : ThunkId)
  | field (key : FieldKey)
  deriving DecidableEq

/-- What happens to a result that is kept. -/
inductive Event where
  /-- An evaluation of it begins. -/
  | begins (memo : Memo)
  /-- An evaluation of it ends with a value. -/
  | succeeds (memo : Memo)
  /-- An evaluation of it ends with a failure. -/
  | fails (memo : Memo)
  deriving DecidableEq

/-- Whether a state keeps a result. -/
def Memo.Kept (memo : Memo) (state : State) : Prop :=
  match memo with
  | .thunk id => ∃ value, state.thunks[id.index]? = some (.ready value)
  | .field key => ∃ value, state.fields[key]? = some value

/-- The result that a task evaluates. -/
def Task.memo? : Task → Option Memo
  | .force thunk => some (.thunk thunk)
  | .field object _ depth name _ => some (.field (object.fieldKey name depth))
  | _ => none

/-- The event of an evaluation that ends. -/
def Event.ended (memo : Memo) : Bool → Event
  | true => .succeeds memo
  | false => .fails memo

/-- The events of a computation, from those of the tasks that it asks for. -/
def Progress.events {α : Type} (session : Session)
    (carryOut : (task : Task) → State → Option (Outcome task.Result))
    (eventsOf : Task → State → List Event) : Progress α → State → List Event
  | .finished _, _ => []
  | .step operation next, state =>
    match operation.apply session state with
    | (.ok result, state) => (next result).events session carryOut eventsOf state
    | (.error _, _) => []
  | .wait frame? task next, state =>
    match state.enter frame? with
    | .error _ => []
    | .ok state =>
      eventsOf task state ++
        match carryOut task state with
        | some (.ok result, state) =>
          (next result).events session carryOut eventsOf (state.leave frame?)
        | _ => []

/-- The events while a task is carried out with tasks nested `fuel` deep at most. -/
def Task.events (session : Session) : Nat → Task → State → List Event
  | 0, _, _ => []
  | fuel + 1, task, state =>
    match task.known? session state with
    | some _ => []
    | none =>
      let inner := (task.action state session).events session (Task.perform session fuel)
        (Task.events session fuel) (task.begin state)
      let ended := (task.action state session).resolve session (Task.perform session fuel)
        (task.begin state)
      match task.memo?, ended with
      | some memo, some (outcome, _) =>
        .begins memo :: (inner ++ [.ended memo outcome.isOk])
      | _, _ => inner

/-! ### Fuel -/

section

variable {session : Session}

/-- A computation that comes to an end has the same events with a way of carrying out more
tasks. -/
theorem Progress.events_mono {α : Type} {progress : Progress α}
    {f g : (task : Task) → State → Option (Outcome task.Result)} {F G : Task → State → List Event}
    (hfg : ∀ {task state x}, f task state = some x → g task state = some x)
    (hFG : ∀ {task state x}, f task state = some x → G task state = F task state)
    {state : State} {x : Outcome α} (h : progress.resolve session f state = some x) :
  progress.events session g G state = progress.events session f F state
  := by
  induction progress generalizing state with
  | finished result => rfl
  | step operation next ih =>
    rw [resolve] at h
    split at h
    case h_1 result mid happly =>
      simp only [events, happly]
      exact ih result h
    case h_2 failure mid happly => simp only [events, happly]
  | wait frame? task next ih =>
    rw [resolve] at h
    split at h
    case h_1 henter => simp only [events, henter]
    case h_2 inside henter =>
      split at h
      case h_1 => cases h
      case h_2 result mid hmid =>
        simp only [events, henter, hmid, hfg hmid, hFG hmid]
        rw [ih result h]
      case h_3 failure mid hmid => simp only [events, henter, hmid, hfg hmid, hFG hmid]

theorem Task.events_succ {task : Task} {state : State} {x : Outcome task.Result} {fuel : Nat}
    (h : task.perform session fuel state = some x) :
  task.events session (fuel + 1) state = task.events session fuel state
  := by
  induction fuel generalizing task state with
  | zero => cases h
  | succ fuel ih =>
    rw [perform] at h
    split at h
    case h_1 hknown => simp only [events, hknown]
    case h_2 hknown =>
      split at h
      case h_1 => cases h
      case h_2 hresolve =>
        have hmore := Progress.resolve_mono perform_succ hresolve
        have hevents := Progress.events_mono perform_succ ih hresolve
        rw [events, events, hknown]
        simp only [hevents, hmore, hresolve]

/-- A computation that comes to an end has the same events with more fuel. -/
theorem Progress.events_le {α : Type} {progress : Progress α} {state : State} {x : Outcome α}
    {fuel fuel' : Nat} (hle : fuel ≤ fuel')
    (h : progress.resolve session (Task.perform session fuel) state = some x) :
  progress.events session (Task.perform session fuel') (Task.events session fuel') state
    = progress.events session (Task.perform session fuel) (Task.events session fuel) state
  := by
  induction hle with
  | refl => rfl
  | step hle ih =>
    rw [← ih]
    exact events_mono Task.perform_succ Task.events_succ (resolve_le hle h)

end

/-! ### Runs -/

/-- The states and events that lead from one state to another: the host carries out
actions, and interns names in between. -/
inductive Session.Leads (session : Session) (a : State) : List Event → State → Prop where
  | start : Leads session a [] a
  | action {events : List Event} {b c : State} {α : Type} (action : Action α) (fuel : Nat)
      {outcome : Except Failure α} (before : Leads session a events b)
      (run : (action session).resolve session (Task.perform session fuel) b
        = some (outcome, c)) :
      Leads session a (events ++ (action session).events session (Task.perform session fuel)
        (Task.events session fuel) b) c
  | names {events : List Event} {b : State} (names : Interner)
      (before : Leads session a events b) : Leads session a events { b with names }

/-- How many evaluations of a result are under way after some events. -/
def Memo.underWay (memo : Memo) (events : List Event) : Int :=
  events.count (.begins memo) - (events.count (.succeeds memo) + events.count (.fails memo))

/-- How the events of a run go with the states that it begins and ends in. -/
structure Event.Fit (a : State) (events : List Event) (b : State) : Prop where
  /-- What is kept from the beginning is not evaluated. -/
  notKept : ∀ memo : Memo, memo.Kept a → .begins memo ∉ events
  /-- What is evaluated is kept in the end. -/
  kept : ∀ memo : Memo, .succeeds memo ∈ events → memo.Kept b
  /-- What has been evaluated is not evaluated again. -/
  last : ∀ memo before after, events = before ++ .succeeds memo :: after →
    .begins memo ∉ after
  /-- No evaluation ends that has not begun. -/
  begun : ∀ (memo : Memo) before after, events = before ++ after → 0 ≤ memo.underWay before
  /-- Every evaluation ends. -/
  ended : ∀ memo : Memo, memo.underWay events = 0

namespace Memo

variable {memo : Memo} {events events' : List Event}

theorem underWay_append :
  memo.underWay (events ++ events') = memo.underWay events + memo.underWay events'
  := by
  simp only [underWay, List.count_append]
  omega

theorem underWay_begins (other : Memo) :
  memo.underWay [.begins other] = if other = memo then 1 else 0
  := by
  by_cases h : other = memo <;> simp [underWay, h]

theorem underWay_ended (other : Memo) (succeeded : Bool) :
  memo.underWay [.ended other succeeded] = if other = memo then -1 else 0
  := by
  cases succeeded <;> by_cases h : other = memo <;>
    simp [underWay, Event.ended, h]

/-- What is kept stays kept. -/
theorem Kept.grows {session : Session} {a b : State} (h : memo.Kept a)
    (hgrows : a.Grows session b) :
  memo.Kept b
  := by
  cases memo with
  | thunk thunk =>
    obtain ⟨value, hvalue⟩ := h
    exact ⟨value, hgrows.ready hvalue⟩
  | field key =>
    obtain ⟨value, hvalue⟩ := h
    exact ⟨value, hgrows.field hvalue⟩

/-- A kept thunk is ready. -/
theorem kept_keepThunk {state : State} {thunk : ThunkId} (value : Value)
    (h : thunk.index < state.thunks.size) :
  (Memo.thunk thunk).Kept (state.keepThunk thunk value)
  := ⟨value, by simp [State.keepThunk, h]⟩

theorem Kept.keepThunk {state : State} (h : memo.Kept state) (thunk : ThunkId)
    (value : Value) :
  memo.Kept (state.keepThunk thunk value)
  := by
  cases memo with
  | field key => exact h
  | thunk id =>
    obtain ⟨old, hold⟩ := h
    by_cases heq : thunk.index = id.index
    · have hlt := (Array.getElem?_eq_some_iff.mp hold).choose
      exact ⟨value, by simp [State.keepThunk, heq, hlt]⟩
    · exact ⟨old, by simpa [State.keepThunk, Array.getElem?_setIfInBounds, heq] using hold⟩

/-- A kept field is kept. -/
theorem kept_keepField (state : State) (key : FieldKey) (value : Value) :
  (Memo.field key).Kept (state.keepField key value)
  := ⟨value, by simp [State.keepField]⟩

theorem Kept.keepField {state : State} (h : memo.Kept state) (key : FieldKey)
    (value : Value) :
  memo.Kept (state.keepField key value)
  := by
  cases memo with
  | thunk id => exact h
  | field other =>
    obtain ⟨old, hold⟩ := h
    by_cases heq : key = other
    · exact ⟨value, by simp [State.keepField, heq]⟩
    · exact ⟨old, by simpa [State.keepField, Std.HashMap.getElem?_insert, heq] using hold⟩

end Memo

namespace Event.Fit

variable {session : Session} {a b c : State} {events events' : List Event}

theorem nil (a b : State) :
  Fit a [] b
  where
  notKept := by simp
  kept := by simp
  last := by simp
  begun := by
    intro memo before after h
    obtain ⟨rfl, -⟩ := List.append_eq_nil_iff.mp h.symm
    exact Int.le_refl 0
  ended _ := rfl

/-- The events of a run that goes on are those of both its parts. -/
theorem append (h : Fit a events b) (h' : Fit b events' c)
    (hab : ∀ {memo : Memo}, memo.Kept a → memo.Kept b)
    (hbc : ∀ {memo : Memo}, memo.Kept b → memo.Kept c) :
  Fit a (events ++ events') c
  where
  notKept := by
    intro memo hkept hmem
    obtain hmem | hmem := List.mem_append.mp hmem
    · exact h.notKept memo hkept hmem
    · exact h'.notKept memo (hab hkept) hmem
  kept := by
    intro memo hmem
    obtain hmem | hmem := List.mem_append.mp hmem
    · exact hbc (h.kept memo hmem)
    · exact h'.kept memo hmem
  last := by
    intro memo before after heq hmem
    obtain ⟨before', hbefore, h'eq⟩ | ⟨after', hevents, hafter⟩ :=
      List.append_eq_append_iff.mp heq
    · exact h'.last memo before' after h'eq hmem
    · cases after' with
      | nil =>
        exact h'.last memo [] after hafter.symm hmem
      | cons first after' =>
        obtain ⟨rfl, rfl⟩ := List.cons_eq_cons.mp hafter
        obtain hmem | hmem := List.mem_append.mp hmem
        · exact h.last memo before after' hevents hmem
        · apply h'.notKept memo _ hmem
          apply h.kept
          rw [hevents]
          simp
  begun := by
    intro memo before after heq
    obtain ⟨before', hbefore, h'eq⟩ | ⟨after', hevents, hafter⟩ :=
      List.append_eq_append_iff.mp heq
    · rw [hbefore, Memo.underWay_append, h.ended]
      have := h'.begun memo before' after h'eq
      omega
    · exact h.begun memo before after' hevents
  ended := by
    intro memo
    rw [Memo.underWay_append, h.ended, h'.ended]
    rfl

/-- The run may begin with a change that has no events and forgets nothing. -/
theorem after (h : Fit b events c) (hab : ∀ {memo : Memo}, memo.Kept a → memo.Kept b) :
  Fit a events c
  := { h with notKept := fun memo hkept => h.notKept memo (hab hkept) }

/-- The events are those inside a frame as well. -/
theorem leave {frame? : Option Frame} (henter : a.enter frame? = .ok b)
    (hbc : b.Grows session c) (h : Fit b events c) :
  Fit a events (c.leave frame?)
  := by
  obtain ⟨hb, hleave⟩ := hbc.leave_eq henter
  rw [hleave]
  rw [hb] at h
  refine { h with notKept := ?_, kept := ?_ }
  · intro memo hkept
    apply h.notKept
    cases memo <;> exact hkept
  · intro memo hmem
    have := h.kept memo hmem
    cases memo <;> exact this

/-- The events of an evaluation, from those inside it. -/
theorem evaluation {memo : Memo} {succeeded : Bool} (h : Fit a events b)
    (hbc : ∀ {other : Memo}, other.Kept b → other.Kept c) (hnot : ¬ memo.Kept a)
    (hkept : succeeded = true → memo.Kept c) :
  Fit a (.begins memo :: (events ++ [.ended memo succeeded])) c
  where
  notKept := by
    intro other hother hmem
    obtain heq | hmem := List.mem_cons.mp hmem
    · cases heq
      exact hnot hother
    obtain hmem | heq := List.mem_append.mp hmem
    · exact h.notKept other hother hmem
    · cases succeeded <;> simp [Event.ended] at heq
  kept := by
    intro other hmem
    obtain heq | hmem := List.mem_cons.mp hmem
    · cases heq
    obtain hmem | heq := List.mem_append.mp hmem
    · exact hbc (h.kept other hmem)
    · cases succeeded with
      | false => simp [Event.ended] at heq
      | true =>
        cases List.mem_singleton.mp heq
        exact hkept rfl
  last := by
    intro other before after heq hmem
    cases before with
    | nil => cases heq
    | cons first before =>
      obtain ⟨-, heq⟩ := List.cons_eq_cons.mp heq
      obtain ⟨before', hbefore, hafter⟩ | ⟨after', hevents, hafter⟩ :=
        List.append_eq_append_iff.mp heq
      · cases before' with
        | nil =>
          obtain ⟨-, rfl⟩ := List.cons_eq_cons.mp hafter
          cases hmem
        | cons second before' =>
          obtain ⟨-, hnil⟩ := List.cons_eq_cons.mp hafter
          simp at hnil
      · cases after' with
        | nil =>
          obtain ⟨-, rfl⟩ := List.cons_eq_cons.mp hafter
          cases hmem
        | cons second after' =>
          obtain ⟨rfl, rfl⟩ := List.cons_eq_cons.mp hafter
          obtain hmem | hmem := List.mem_append.mp hmem
          · exact h.last other before after' hevents hmem
          · cases succeeded <;> simp [Event.ended] at hmem
  begun := by
    intro other before after heq
    cases before with
    | nil => exact Int.le_refl 0
    | cons first before =>
      obtain ⟨rfl, htail⟩ := List.cons_eq_cons.mp heq
      rw [← List.singleton_append, Memo.underWay_append, Memo.underWay_begins]
      obtain ⟨before', rfl, hafter⟩ | ⟨after', hevents, hafter⟩ :=
        List.append_eq_append_iff.mp htail
      · rw [Memo.underWay_append, h.ended]
        cases before' with
        | nil =>
          have : other.underWay [] = 0 := rfl
          split <;> omega
        | cons second before' =>
          obtain ⟨rfl, hnil⟩ := List.cons_eq_cons.mp hafter
          obtain ⟨rfl, -⟩ := List.append_eq_nil_iff.mp hnil.symm
          rw [Memo.underWay_ended]
          split <;> omega
      · have := h.begun other before after' hevents
        split <;> omega
  ended := by
    intro other
    rw [← List.singleton_append, Memo.underWay_append, Memo.underWay_append, h.ended,
      Memo.underWay_begins, Memo.underWay_ended]
    split <;> rfl

end Event.Fit

/-! ### The events of tasks -/

section

variable {session : Session}

/-- The events of a computation go with its states if those of tasks do. -/
theorem Progress.events_fit {α : Type} {progress : Progress α}
    {carryOut : (task : Task) → State → Option (Outcome task.Result)}
    {eventsOf : Task → State → List Event}
    (hgrows : ∀ {task a outcome b}, carryOut task a = some (outcome, b) →
      a.Grows session b)
    (hfit : ∀ {task a outcome b}, carryOut task a = some (outcome, b) →
      Event.Fit a (eventsOf task a) b)
    {a b : State} {outcome : Except Failure α}
    (h : progress.resolve session carryOut a = some (outcome, b)) :
  Event.Fit a (progress.events session carryOut eventsOf a) b
  := by
  induction progress generalizing a with
  | finished result => apply Event.Fit.nil
  | step operation next ih =>
    have happly := operation.grows session a
    rw [resolve] at h
    split at h
    case h_1 result mid heq =>
      rw [heq] at happly
      simp only [events, heq]
      exact (ih result h).after fun hkept => hkept.grows happly
    case h_2 failure mid heq =>
      simp only [events, heq]
      apply Event.Fit.nil
  | wait frame? task next ih =>
    rw [resolve] at h
    split at h
    case h_1 failure henter =>
      simp only [events, henter]
      apply Event.Fit.nil
    case h_2 inside henter =>
      split at h
      case h_1 => cases h
      case h_2 result mid hmid =>
        simp only [events, henter, hmid]
        exact ((hfit hmid).leave henter (hgrows hmid)).append (ih result h)
          (fun hkept => hkept.grows ((hgrows hmid).leave henter))
          (fun hkept => hkept.grows (grows hgrows h))
      case h_3 failure mid hmid =>
        cases h
        simp only [events, henter, hmid, List.append_nil]
        exact (hfit hmid).leave henter (hgrows hmid)

/-- Computing a thunk without a cell fails. -/
theorem computeThunk_none {state : State} {thunk : ThunkId}
    (h : state.thunks[thunk.index]? = none) {carryOut} {outcome : Except Failure Value}
    {after : State}
    (hresolve : (computeThunk state thunk session).resolve session carryOut state
      = some (outcome, after)) :
  outcome.isOk = false
  := by
  rw [computeThunk, h] at hresolve
  cases hresolve
  rfl

/-- The events of a task go with its states. -/
theorem Task.events_fit (hsharing : session.sharing = true) {fuel : Nat} {task : Task}
    {a b : State} {outcome : Except Failure task.Result}
    (h : task.perform session fuel a = some (outcome, b)) :
  Event.Fit a (task.events session fuel a) b
  := by
  induction fuel generalizing task a b with
  | zero => cases h
  | succ fuel ih =>
    rw [perform] at h
    split at h
    case h_1 result hknown =>
      cases h
      simp only [events, hknown]
      apply Event.Fit.nil
    case h_2 hknown =>
      split at h
      case h_1 => cases h
      case h_2 outcome mid hresolve =>
        cases h
        have hfit := Progress.events_fit grows ih hresolve
        have hgrows := Progress.grows grows hresolve
        simp only [events, hknown, hresolve]
        cases task with
        | force thunk =>
          have hnot : ¬ (Memo.thunk thunk).Kept a := by
            rintro ⟨value, hvalue⟩
            simp [known?, hvalue] at hknown
          cases outcome with
          | error failure =>
            exact hfit.evaluation (fun h => h) hnot (fun h => by cases h)
          | ok value =>
            rw [settle, if_pos hsharing]
            apply hfit.evaluation (fun h => h.keepThunk thunk value) hnot
            intro _
            apply Memo.kept_keepThunk
            cases hcell : a.thunks[thunk.index]? with
            | none => cases computeThunk_none hcell hresolve
            | some cell =>
              cases cell with
              | ready old => exact absurd ⟨old, hcell⟩ hnot
              | pending suspension =>
                obtain h | ⟨_, h⟩ := hgrows.pending hcell <;>
                  exact (Array.getElem?_eq_some_iff.mp h).choose
        | field object leaf depth name site =>
          have hnot : ¬ (Memo.field (object.fieldKey name depth)).Kept a := by
            rintro ⟨value, hvalue⟩
            simp [known?, hsharing, hvalue] at hknown
          cases outcome with
          | error failure =>
            exact hfit.evaluation (fun h => h) hnot (fun h => by cases h)
          | ok value =>
            rw [settle, if_pos hsharing]
            apply hfit.evaluation (fun h => h.keepField _ value) hnot
            intro _
            apply Memo.kept_keepField
        | check object =>
          refine { hfit with kept := ?_, notKept := ?_ }
          · intro memo hkept
            apply hfit.notKept
            cases memo <;> exact hkept
          · intro memo hmem
            have := hfit.kept memo hmem
            cases memo <;> exact this
        | _ => exact hfit

/-! ### The events of runs -/

/-- What is kept stays kept, with the same value. -/
theorem Session.Leads.keeps {a b : State} {events : List Event}
    (h : session.Leads a events b) :
  (∀ {i : Nat} {value : Value}, a.thunks[i]? = some (.ready value) →
      b.thunks[i]? = some (.ready value)) ∧
    ∀ {key : FieldKey} {value : Value}, a.fields[key]? = some value →
      b.fields[key]? = some value
  := by
  induction h with
  | start => exact ⟨id, id⟩
  | action action fuel before run ih =>
    have hgrows := Progress.grows Task.grows run
    exact ⟨fun h => hgrows.ready (ih.1 h), fun h => hgrows.field (ih.2 h)⟩
  | names names before ih => exact ih

theorem Memo.Kept.leads {memo : Memo} {a b : State} {events : List Event}
    (hkept : memo.Kept a) (h : session.Leads a events b) :
  memo.Kept b
  := by
  cases memo with
  | thunk id =>
    obtain ⟨value, hvalue⟩ := hkept
    exact ⟨value, h.keeps.1 hvalue⟩
  | field key =>
    obtain ⟨value, hvalue⟩ := hkept
    exact ⟨value, h.keeps.2 hvalue⟩

/-- The events of a run go with its states. -/
theorem Session.Leads.fit (hsharing : session.sharing = true) {a b : State}
    {events : List Event} (h : session.Leads a events b) :
  Event.Fit a events b
  := by
  induction h with
  | start => apply Event.Fit.nil
  | action action fuel before run ih =>
    have hfit := Progress.events_fit Task.grows (Task.events_fit hsharing) run
    have hgrows := Progress.grows Task.grows run
    exact ih.append hfit (fun hkept => hkept.leads before) fun hkept => hkept.grows hgrows
  | names names before ih =>
    refine { ih with kept := ?_ }
    intro memo hmem
    have := ih.kept memo hmem
    cases memo <;> exact this

/-- An event that is no beginning leaves no more evaluations under way. -/
theorem Memo.underWay_le {memo : Memo} {event : Event} (h : event ≠ .begins memo) :
  memo.underWay [event] ≤ 0
  := by
  have hcount : [event].count (.begins memo) = 0 := by
    rw [List.count_singleton, if_neg]
    simpa using h
  rw [underWay, hcount]
  omega

/-- Without beginnings there are not more evaluations under way. -/
theorem Memo.underWay_nonpos {memo : Memo} {events : List Event}
    (h : .begins memo ∉ events) :
  memo.underWay events ≤ 0
  := by
  rw [underWay, List.count_eq_zero_of_not_mem h]
  omega

/-- If no evaluation of a result begins while another one is under way, there is never
more than one under way. -/
theorem Memo.underWay_le_one {memo : Memo} {events : List Event}
    (hnested : ∀ before after, events = before ++ .begins memo :: after →
      memo.underWay before = 0) :
  ∀ before after, events = before ++ after → memo.underWay before ≤ 1
  := by
  intro before
  induction before using List.reverseRecOn with
  | nil =>
    intro after h
    exact Int.zero_le_ofNat 1
  | append_singleton before event ih =>
    intro after h
    rw [List.append_assoc, List.singleton_append] at h
    rw [underWay_append]
    by_cases heq : event = .begins memo
    · subst heq
      rw [hnested before after h, underWay_begins, if_pos rfl]
      omega
    · have := underWay_le heq
      have := ih _ h
      omega

/-- In the events of a run a result is evaluated to success at most once, if none of its
evaluations begins while another one is under way. -/
theorem Event.Fit.count_succeeds_le {a b : State} {events : List Event}
    (h : Event.Fit a events b) {memo : Memo}
    (hnested : ∀ before after, events = before ++ .begins memo :: after →
      memo.underWay before = 0) :
  events.count (.succeeds memo) ≤ 1
  := by
  by_contra hmany
  have hmem : Event.succeeds memo ∈ events := List.count_pos_iff.mp (by omega)
  obtain ⟨before, after, heq, hbefore⟩ := List.eq_append_cons_of_mem hmem
  have hafter : Event.succeeds memo ∈ after := by
    rw [heq, List.count_append, List.count_cons_self,
      List.count_eq_zero_of_not_mem hbefore] at hmany
    exact List.count_pos_iff.mp (by omega)
  obtain ⟨mid, rest, rfl⟩ := List.append_of_mem hafter
  have hmid : .begins memo ∉ mid := by
    intro hmem
    exact h.last memo before _ heq (List.mem_append_left _ hmem)
  have hsplit : events
      = (before ++ [.succeeds memo] ++ mid ++ [.succeeds memo]) ++ rest := by
    simp [heq]
  -- Two evaluations have ended since, and none has begun.
  have hbegun := h.begun memo _ rest hsplit
  have hone := Memo.underWay_le_one hnested before _ heq
  have hnone := Memo.underWay_nonpos hmid
  have hend : memo.underWay [.ended memo true] = _ := Memo.underWay_ended memo true
  rw [if_pos rfl, Event.ended] at hend
  rw [Memo.underWay_append, Memo.underWay_append, Memo.underWay_append, hend] at hbegun
  omega

/-- In every run of an interpreter that keeps results, no evaluation of a result begins
once one has succeeded. So a result is evaluated to success at most once, unless one of
its evaluations begins while another one is under way. A thunk that is ready between two
actions stays ready with its value, and a field that is kept stays kept with its value. -/
theorem Session.Leads.evaluates_once (hsharing : session.sharing = true) {a b : State}
    {events : List Event} (h : session.Leads a events b) (memo : Memo) :
  (∀ before after, events = before ++ .succeeds memo :: after → .begins memo ∉ after) ∧
    ((∀ before after, events = before ++ .begins memo :: after → memo.underWay before = 0) →
      events.count (.succeeds memo) ≤ 1) ∧
    (memo.Kept a → .begins memo ∉ events) ∧
    (∀ {i : Nat} {value : Value}, a.thunks[i]? = some (.ready value) →
      b.thunks[i]? = some (.ready value)) ∧
    ∀ {key : FieldKey} {value : Value}, a.fields[key]? = some value →
      b.fields[key]? = some value
  := by
  have hfit := h.fit hsharing
  refine ⟨hfit.last memo, hfit.count_succeeds_le, hfit.notKept memo, ?_, ?_⟩
  · exact h.keeps.1
  · exact h.keeps.2

end

/-! ### A small session -/

/-- A session in which nothing can be referred to. -/
def Session.bare : Session where
  settings := {}
  sharing := true
  importer := fun _ path => .error (.notAvailable path)
  frontEnd := fun names _ _ => (.broken "no front end", names)
  externals := []
  arguments := []
  library := .leaf ⟨⟨0⟩, .empty, [], []⟩
  libraryName := .empty
  argumentName := .empty
  elementName := .empty
  rightOperandName := .empty

/-- A state with some thunks and room for some frames. -/
def State.withThunks (suspensions : List Suspension) (room : Nat) : State where
  names := .onlyEmpty
  stack := .new room
  thunks := (suspensions.map Cell.pending).toArray
  slots := .empty
  checks := #[.notChecked]
  fields := ∅
  imports := .empty
  externals := ∅
  counters := .zero

/-- A program of one node. -/
def Code.ofNode (node : Node) : Code := ⟨{ file := .empty, nodes := #[node] }, ⟨0⟩⟩

/-- A thunk that is forced twice is evaluated once. -/
theorem Session.Leads.evaluates_once_of_null :
  ∃ b, Session.bare.Leads
      (State.withThunks [.code (.thunk .empty) .empty (.ofNode .null)] 1)
      [.begins (.thunk ⟨0⟩), .succeeds (.thunk ⟨0⟩)] b ∧
    .begins (.thunk ⟨0⟩) ∉ ([] : List Event) ∧
    [Event.begins (.thunk ⟨0⟩), .succeeds (.thunk ⟨0⟩)].count (.succeeds (.thunk ⟨0⟩)) ≤ 1
  := by
  let twice : Action Value := do
    let _ ← (Deferred.shared ⟨0⟩).force
    (Deferred.shared ⟨0⟩).force
  have h : Session.bare.Leads
      (State.withThunks [.code (.thunk .empty) .empty (.ofNode .null)] 1)
      [.begins (.thunk ⟨0⟩), .succeeds (.thunk ⟨0⟩)] _ := .action twice 3 .start rfl
  obtain ⟨hlast, honce, -⟩ := Session.Leads.evaluates_once rfl h (.thunk ⟨0⟩)
  refine ⟨_, h, hlast [.begins (.thunk ⟨0⟩)] [] rfl, honce ?_⟩
  intro before after heq
  cases before with
  | nil => rfl
  | cons first before =>
    obtain ⟨-, heq⟩ := List.cons_eq_cons.mp heq
    cases before with
    | nil => cases heq
    | cons second before =>
      obtain ⟨-, hnil⟩ := List.cons_eq_cons.mp heq
      simp at hnil

end Jsonnet
