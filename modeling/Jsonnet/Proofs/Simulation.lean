import Jsonnet.Proofs.Evaluations
import Jsonnet.Proofs.Expressions

/-!
# Runs in step

Two runs are compared in stages: a stage has a world, and an invariant relates the states
of the two runs at it. If every operation leads from stage to stage, and every task whose
result is kept does so if the computations inside it do, then whole runs in lockstep come
to related results, or fail in the same way.
-/

namespace Jsonnet

/-! ### Properties that a run inherits from its end -/

/-- A property of states that holds before a run if it holds after it, and that does not
depend on the stack. -/
structure Session.Inherits (session : Session) (P : State → Prop) : Prop where
  stack : ∀ {a : State} (s : CallStack), P a → P { a with stack := s }
  grows : ∀ {a b : State}, a.Grows session b → P b → P a

/-- An outcome in some states. Except on exact terms it is no overflow of the stack. -/
structure Outcome.EndsIn (τ : Terms) {α : Type} (P : State → Prop) (x : Outcome α) : Prop where
  state : P x.2
  noOverflow : ¬ τ.exact → ∀ failure, x.1 = .error failure → failure.isOverflow = false

namespace State

variable {a b : State} {frame? : Option Frame}

theorem room_of_enter (h : a.enter frame? = .ok b) :
  a.stack.room = b.stack.room + if frame?.isSome then 1 else 0
  := by
  cases frame? with
  | none => cases h; rfl
  | some frame =>
    rw [enter, CallStack.push?] at h
    split at h
    case h_1 => cases h
    case h_2 stack hpush =>
      cases h
      split at hpush
      case h_1 => cases hpush
      case h_2 room hroom =>
        cases hpush
        exact hroom

theorem overflow_of_enter {failure : Failure} (h : a.enter frame? = .error failure) :
  failure.isOverflow = true ∧ frame?.isSome ∧ a.stack.room = 0
  := by
  cases frame? with
  | none => cases h
  | some frame =>
    rw [enter, CallStack.push?] at h
    split at h
    case h_2 => cases h
    case h_1 hpush =>
      cases h
      split at hpush
      case h_1 hroom => exact ⟨rfl, rfl, hroom⟩
      case h_2 => cases hpush

/-- There is no room in two states with the same stack, for the same reason. -/
theorem enter_error_congr (hstack : a.stack = b.stack) (hnames : a.names = b.names)
    {failure : Failure} (h : a.enter frame? = .error failure) :
  b.enter frame? = .error failure
  := by
  cases frame? with
  | none => cases h
  | some frame =>
    rw [enter, State.failure] at h ⊢
    rw [← hstack, ← hnames]
    split at h
    case h_1 => exact h
    case h_2 => cases h

/-- Two states with the same stack have the same stack inside a frame. -/
theorem enter_stack_congr (hstack : a.stack = b.stack) {a₁ b₁ : State}
    (ha : a.enter frame? = .ok a₁) (hb : b.enter frame? = .ok b₁) :
  a₁.stack = b₁.stack
  := by
  cases frame? with
  | none =>
    cases ha
    cases hb
    exact hstack
  | some frame =>
    rw [enter] at ha hb
    rw [← hstack] at hb
    split at ha
    case h_1 => cases ha
    case h_2 stack hpush =>
      rw [hpush] at hb
      cases ha
      cases hb
      rfl

end State

namespace Session.Inherits

variable {session : Session} {P : State → Prop} (hP : session.Inherits P) {τ : Terms} {α : Type}
  {fuel : Nat} {a a₁ a₂ : State} {x : Outcome α} {frame? : Option Frame}

include hP

theorem leave (henter : a.enter frame? = .ok a₁) (hgrows : a₁.Grows session a₂)
    (h : P (a₂.leave frame?)) :
  P a₂
  := by
  rw [(hgrows.leave_eq henter).2] at h
  have := hP.stack a₂.stack h
  exact this

/-- The state after the first operation of a run. -/
theorem operation {op : Operation} {rest : op.Result → Progress α}
    (h : (Progress.step op rest).resolve session (Task.perform session fuel) a = some x)
    (hx : x.EndsIn τ P) :
  P (op.apply session a).2
  := by
  rw [Progress.resolve] at h
  split at h
  case h_1 r b happly =>
    rw [happly]
    exact hP.grows (Progress.grows Task.grows h) hx.state
  case h_2 f b happly =>
    cases h
    rw [happly]
    exact hx.state

/-- The first task of a run, if there is room for it. -/
theorem task {task : Task} {rest : task.Result → Progress α}
    (h : (Progress.wait frame? task rest).resolve session (Task.perform session fuel) a
      = some x) (hx : x.EndsIn τ P) :
  (τ.exact ∧ ∃ f, a.enter frame? = .error f ∧ x = (.error f, a)) ∨ ∃ a₁ y, a.enter frame? = .ok a₁ ∧ task.perform session fuel a₁ = some y ∧ y.EndsIn τ P ∧
    (∀ r a₂, y = (.ok r, a₂) →
      (rest r).resolve session (Task.perform session fuel) (a₂.leave frame?) = some x) ∧
    ∀ f a₂, y = (.error f, a₂) → x = (.error f, a₂.leave frame?)
  := by
  rw [Progress.resolve] at h
  split at h
  case h_1 f henter =>
    cases h
    left
    constructor
    · by_contra hloose
      have := hx.noOverflow hloose f rfl
      rw [(State.overflow_of_enter henter).1] at this
      cases this
    · exact ⟨f, henter, rfl⟩
  case h_2 a₁ henter =>
    right
    split at h
    case h_1 => cases h
    case h_2 r a₂ hperform =>
      refine ⟨a₁, _, henter, hperform, ⟨?_, fun _ _ h => by cases h⟩, ?_,
        fun _ _ h => by cases h⟩
      · exact hP.leave henter (Task.grows hperform)
          (hP.grows (Progress.grows Task.grows h) hx.state)
      · intro r' a₂' heq
        cases heq
        exact h
    case h_3 f a₂ hperform =>
      cases h
      refine ⟨a₁, _, henter, hperform, ⟨?_, ?_⟩, (fun _ _ h => by cases h), ?_⟩
      · exact hP.leave henter (Task.grows hperform) hx.state
      · intro hloose f' heq
        cases heq
        exact hx.noOverflow hloose f rfl
      · intro f' a₂' heq
        cases heq
        rfl

end Session.Inherits

/-! ### Tasks whose results are known -/

/-- A thunk that is ready is not computed. -/
theorem Task.perform_ready {session : Session} {fuel : Nat} {a : State} {thunk : ThunkId}
    {value : Value} (h : a.thunks[thunk.index]? = some (.ready value)) :
  (Task.force thunk).perform session (fuel + 1) a = some (.ok value, a)
  := by
  simp only [perform, known?, h]

/-! ### Tasks whose results are not known -/

section

variable {session : Session} {task : Task} {a : State} {fuel : Nat}
  (h : task.known? session a = none)

include h

/-- A task whose result is not known is its action, after which it is settled. -/
theorem Task.perform_unknown :
  task.perform session (fuel + 1) a
    = ((task.action a session).resolve session (Task.perform session fuel) (task.begin a)).map
        fun x => (x.1, task.settle session x.2 x.1)
  := by
  rw [perform, h]
  cases (task.action a session).resolve session (Task.perform session fuel) (task.begin a) <;> rfl

/-- The events of an evaluation of a result that is kept. -/
theorem Task.events_unknown {memo : Memo} (hmemo : task.memo? = some memo)
    {x : Outcome task.Result}
    (hx : (task.action a session).resolve session (Task.perform session fuel) (task.begin a)
      = some x) :
  task.events session (fuel + 1) a
    = .begins memo :: ((task.action a session).events session (Task.perform session fuel)
        (Task.events session fuel) (task.begin a) ++ [.ended memo x.1.isOk])
  := by
  rw [events, h]
  simp only [hmemo, hx]

end

/-! ### Tasks whose results are not kept -/

section

variable {session : Session} {task : Task} (h : task.isKept = false) (fuel : Nat) (a : State)

include h

/-- A task whose result is not kept is its action. -/
theorem Task.perform_of_not_kept :
  task.perform session (fuel + 1) a
    = (task.action a session).resolve session (Task.perform session fuel) a
  := by
  have hknown : task.known? session a = none := by cases task <;> first | rfl | cases h
  have hbegin : task.begin a = a := by cases task <;> first | rfl | cases h
  have hsettle : ∀ x : Outcome task.Result, task.settle session x.2 x.1 = x.2 := by
    intro x
    cases task <;> first | rfl | cases h
  rw [perform_unknown hknown, hbegin]
  simp only [hsettle, Option.map_id_fun', id]

/-- A task whose result is not kept has the events of its action. -/
theorem Task.events_of_not_kept :
  task.events session (fuel + 1) a
    = (task.action a session).events session (Task.perform session fuel)
      (Task.events session fuel) a
  := by
  cases task <;> first | rfl | cases h

end

theorem Task.Related.isKept_eq {session : Session} {τ : Terms} {w : World τ} {task task' : Task}
    {S : World τ → task.Result → task'.Result → Prop} (h : task.Related session w task' S) :
  task.isKept = task'.isKept
  := by
  cases h <;> rfl

/-! ### Checks -/

/-- Whether an object counts as valid depends on its own check. -/
theorem Object.isSettled_congr {o : Object} {a b : State}
    (h : a.checks[o.id.index]? = b.checks[o.id.index]?) :
  o.isSettled a = o.isSettled b
  := by
  rw [isSettled, isSettled, checkOf, checkOf, h]

/-- An object counts as valid if it has no assertions, or else while they are checked and when
they have passed. -/
theorem Object.isSettled_iff {o : Object} {a : State} :
  o.isSettled a = true ↔ o.hasAsserts = false ∨ a.checks[o.id.index]? = some .inProgress ∨
    a.checks[o.id.index]? = some .passed
  := by
  rw [isSettled, checkOf, Bool.or_eq_true, Bool.not_eq_true', bne_iff_ne]
  apply or_congr_right
  cases a.checks[o.id.index]? with
  | none => simp
  | some check => cases check <;> simp

/-- An object that does not count as valid has assertions that are not checked. -/
theorem Object.checkOf_of_unsettled {o : Object} {a : State} (h : o.isSettled a = false) :
  o.hasAsserts = true ∧ checkOf o a = .notChecked
  := by
  rw [isSettled, Bool.or_eq_false_iff] at h
  obtain ⟨hasAsserts, hcheck⟩ := h
  exact ⟨by simpa using hasAsserts, by simpa using hcheck⟩

/-- An object whose check goes on, or is over, counts as valid. -/
theorem Object.isSettled_of_check {o : Object} {a : State} {check : AssertionState}
    (h : a.checks[o.id.index]? = some check) (hcheck : check ≠ .notChecked) :
  o.isSettled a = true
  := by
  rw [isSettled, checkOf, h]
  cases check with
  | notChecked => exact absurd rfl hcheck
  | inProgress => simp
  | passed => simp

/-- An object whose check has begun counts as valid. -/
theorem Object.isSettled_setCheck {o : Object} {a : State} {check : AssertionState}
    (h : o.id.index < a.checks.size) (hcheck : check ≠ .notChecked) :
  o.isSettled (setCheck o check a) = true
  := by
  apply isSettled_of_check _ hcheck
  rw [State.getElem?_setCheck, if_pos rfl, Array.getElem?_eq_getElem h]
  rfl

/-- Checking another object does not make an object count as invalid. -/
theorem Object.isSettled_setCheck_of_isSettled {o : Object} {a : State} (h : o.isSettled a = true)
    (other : Object) {check : AssertionState} (hcheck : check ≠ .notChecked) :
  o.isSettled (setCheck other check a) = true
  := by
  by_cases hid : other.id.index = o.id.index
  · cases ho : a.checks[o.id.index]? with
    | none =>
      rw [isSettled_congr (b := a), h]
      rw [State.getElem?_setCheck, ho, Option.map_none, ite_self]
    | some old =>
      apply isSettled_of_check _ hcheck
      rw [State.getElem?_setCheck, if_pos hid, ho]
      rfl
  · rw [isSettled_congr (b := a), h]
    rw [State.getElem?_setCheck, if_neg hid]

/-- The outcome of the assertions of an object, as that of its check. -/
def Outcome.settleCheck (object : Object) (x : Outcome Unit) : Outcome Unit :=
  (x.1, setCheck object (if x.1.isOk then .passed else .notChecked) x.2)

section

variable {session : Session} {fuel : Nat} {a : State} {object : Object}

/-- An object that counts as valid is not checked. -/
theorem Task.perform_check_settled (h : object.isSettled a = true) :
  (Task.check object).perform session (fuel + 1) a = some (.ok (), a)
  := by
  simp only [perform, known?, h, if_pos]

/-- The check of an object that does not count as valid. -/
theorem Task.perform_check (h : object.isSettled a = false) :
  (Task.check object).perform session (fuel + 1) a
    = ((checkAssertions object object.assertions session).resolve session
        (Task.perform session fuel) (setCheck object .inProgress a)).map
        (Outcome.settleCheck object)
  := by
  have hknown : (Task.check object).known? session a = none := by
    rw [known?, h]
    rfl
  exact perform_unknown hknown

/-- The events of a check are those of the assertions. -/
theorem Task.events_check (h : object.isSettled a = false) :
  (Task.check object).events session (fuel + 1) a
    = (checkAssertions object object.assertions session).events session
        (Task.perform session fuel) (Task.events session fuel) (setCheck object .inProgress a)
  := by
  simp only [events, known?, h, memo?]
  rfl

end

/-- An outcome whose result, if there is one, is kept. -/
def Outcome.keep {α : Type} (f : State → α → State) (x : Outcome α) : Outcome α :=
  match x with
  | (.ok result, state) => (.ok result, f state result)
  | (.error failure, state) => (.error failure, state)

/-! ### Comparisons -/

/-- How the runs in two sessions are compared. -/
structure Comparison (τ : Terms) (first second : Session) where
  Stage : Type
  [order : Preorder Stage]
  world : Stage → World τ
  /-- What relates the states at a stage. -/
  Inv : Stage → State → State → Prop
  /-- What relates the states at a stage after a failure as well. -/
  Sound : Stage → State → State → Prop
  /-- What the checks that go on in the second run allow for, with tasks nested no deeper
  than the fuel. -/
  Open : Nat → Stage → State → Prop
  /-- The states that the first run may end in. -/
  Within : State → Prop
  /-- The states that the second run may end in. -/
  Within' : State → Prop
  /-- The events that the first run may have. -/
  Allowed : Event → Prop
  /-- Whether the second run is known to end, and to end well. -/
  certain : Prop
  /-- Whether there is no less room for frames in the second run. -/
  roomy : Prop

attribute [instance] Comparison.order

namespace Comparison

variable {τ : Terms} {first second : Session} (C : Comparison τ first second)

/-- What relates two states at which runs in step go on. -/
structure Meets (fuel : Nat) (w : C.Stage) (a b : State) : Prop where
  inv : C.Inv w a b
  isOpen : C.Open fuel w b
  room : C.roomy → a.stack.room ≤ b.stack.room
  stack : τ.exact → a.stack = b.stack

/-- Outcomes of runs in step. -/
inductive Ends {α β : Type} (R : World τ → α → β → Prop) (w : C.Stage) :
    Outcome α → Outcome β → Prop where
  | ok {r : α} {r' : β} {a b : State} (w' : C.Stage) (le : w ≤ w') (inv : C.Inv w' a b)
      (result : R (C.world w') r r') :
    Ends R w (.ok r, a) (.ok r', b)
  | error {f f' : Failure} {a b : State} (fails : τ.Fails f f')
      (sound : ∃ w', w ≤ w' ∧ C.Sound w' a b) :
    Ends R w (.error f, a) (.error f', b)
  | overflow {x : Outcome α} {f' : Failure} {b : State} (cramped : ¬ C.roomy)
      (overflow : f'.isOverflow = true) (sound : ∃ a w', w ≤ w' ∧ C.Sound w' a b) :
    Ends R w x (.error f', b)

/-- Computations in lockstep come to related outcomes. -/
def Carries (fuel : Nat) : Prop :=
  ∀ {α β : Type} {R : World τ → α → β → Prop} {p : Progress α} {q : Progress β} {w : C.Stage}
    {a b : State} {x : Outcome α}, p.Related first R (C.world w) q → C.Meets fuel w a b →
    p.resolve first (Task.perform first fuel) a = some x → x.EndsIn τ C.Within →
    (∀ e ∈ p.events first (Task.perform first fuel) (Task.events first fuel) a, C.Allowed e) →
    (C.certain → ∃ m y, q.resolve second (Task.perform second m) b = some y ∧
      y.EndsIn τ C.Within') →
    ∃ y, q.resolve second (Task.perform second fuel) b = some y ∧ C.Ends R w x y

/-- Related tasks come to related outcomes. -/
def CarriesTask (fuel : Nat) (task task' : Task)
    (S : World τ → task.Result → task'.Result → Prop) : Prop :=
  ∀ {w : C.Stage} {a b : State} {x : Outcome task.Result},
    task.Related first (C.world w) task' S → C.Meets fuel w a b →
    task.perform first fuel a = some x → x.EndsIn τ C.Within →
    (∀ e ∈ task.events first fuel a, C.Allowed e) →
    (C.certain → ∃ m y, task'.perform second m b = some y ∧ y.EndsIn τ C.Within') →
    ∃ y, task'.perform second fuel b = some y ∧ C.Ends S w x y

/-- What a comparison has to fulfil. -/
structure Lawful : Prop where
  agrees : first.Agrees second
  world_mono : ∀ {w w' : C.Stage}, w ≤ w' → C.world w ≤ C.world w'
  sound : ∀ {w a b}, C.Inv w a b → C.Sound w a b
  names : τ.exact → ∀ {w a b}, C.Inv w a b → a.names = b.names
  inv_stack : ∀ {w a b} (s t : CallStack), C.Inv w a b →
    C.Inv w { a with stack := s } { b with stack := t }
  sound_stack : ∀ {w a b} (s t : CallStack), C.Sound w a b →
    C.Sound w { a with stack := s } { b with stack := t }
  open_stack : ∀ {fuel w b} (t : CallStack), C.Open fuel w b →
    C.Open fuel w { b with stack := t }
  open_mono : ∀ {fuel fuel' : Nat} {w w' a' b b'}, C.Open fuel w b → fuel' ≤ fuel → w ≤ w' →
    b.Grows second b' → C.Sound w' a' b' → C.Open fuel' w' b'
  within : first.Inherits C.Within
  within' : second.Inherits C.Within'
  operation : ∀ {w a b} {op op' : Operation} {T : World τ → op.Result → op'.Result → Prop},
    op.Related first (C.world w) op' T → C.Inv w a b → (τ.exact → a.stack = b.stack) →
    C.Within (op.apply first a).2 →
    (C.certain → C.Within' (op'.apply second b).2) →
    C.Ends T w (op.apply first a) (op'.apply second b)
  task : ∀ {fuel : Nat}, (∀ fuel' ≤ fuel, C.Carries fuel') →
    ∀ {task task' : Task} {S : World τ → task.Result → task'.Result → Prop},
      task.isKept = true → C.CarriesTask (fuel + 1) task task' S

variable {C}

/-- Outcomes at a later stage are outcomes at an earlier one. -/
theorem Ends.weaken {α β : Type} {R : World τ → α → β → Prop} {w w' : C.Stage} {x : Outcome α}
    {y : Outcome β} (h : C.Ends R w' x y) (hle : w ≤ w') :
  C.Ends R w x y
  := by
  cases h with
  | ok w'' le inv result => exact .ok w'' (hle.trans le) inv result
  | error fails sound =>
    obtain ⟨w'', le, sound⟩ := sound
    exact .error fails ⟨w'', hle.trans le, sound⟩
  | overflow cramped overflow sound =>
    obtain ⟨a, w'', le, sound⟩ := sound
    exact .overflow cramped overflow ⟨a, w'', hle.trans le, sound⟩

/-- Outcomes in step are so after the second result is kept. -/
theorem Ends.keep {α β : Type} {R : World τ → α → β → Prop} {w : C.Stage} {x : Outcome α}
    {y : Outcome β} (h : C.Ends R w x y) {f : State → β → State}
    (hkeep : ∀ w' r', w ≤ w' → C.Inv w' x.2 y.2 → y.1 = .ok r' →
      (∃ r, x.1 = .ok r ∧ R (C.world w') r r') → C.Inv w' x.2 (f y.2 r')) :
  C.Ends R w x (y.keep f)
  := by
  cases h with
  | ok w' le inv result => exact .ok w' le (hkeep w' _ le inv rfl ⟨_, rfl, result⟩) result
  | error fails sound => exact .error fails sound
  | overflow cramped overflow sound => exact .overflow cramped overflow sound

/-- Outcomes of assertions in step are outcomes of checks in step, if the checks may end
as the assertions do. -/
theorem Ends.settleCheck {o p : Object} {S : World τ → Unit → Unit → Prop} {w : C.Stage}
    {x y : Outcome Unit} (h : C.Ends Same w x y)
    (hpassed : ∀ w', w ≤ w' → x.1 = .ok () → C.Inv w' x.2 y.2 → ∃ w'', w ≤ w'' ∧
      C.Inv w'' (setCheck o .passed x.2) (setCheck p .passed y.2) ∧ S (C.world w'') () ())
    (hfailed : ∀ w' a, w ≤ w' → C.Sound w' a y.2 →
      C.Sound w' (setCheck o .notChecked a) (setCheck p .notChecked y.2)) :
  C.Ends S w (Outcome.settleCheck o x) (Outcome.settleCheck p y)
  := by
  cases h with
  | ok w' le inv result =>
    obtain ⟨w'', le', inv', result'⟩ := hpassed _ le rfl inv
    exact .ok w'' le' inv' result'
  | error fails sound =>
    obtain ⟨w', le, sound⟩ := sound
    exact .error fails ⟨w', le, hfailed _ _ le sound⟩
  | overflow cramped overflow sound =>
    obtain ⟨a, w', le, sound⟩ := sound
    exact .overflow cramped overflow ⟨_, w', le, hfailed _ a le sound⟩

section

variable (hC : C.Lawful) {fuel : Nat} {w : C.Stage} {a b : State}

include hC

/-- Runs in step go on in step. -/
theorem Meets.grows (h : C.Meets fuel w a b) {w' : C.Stage} {a' b' : State} (hle : w ≤ w')
    (inv : C.Inv w' a' b') (ha : a.Grows first a') (hb : b.Grows second b') :
  C.Meets fuel w' a' b'
  where
  inv := inv
  isOpen := hC.open_mono h.isOpen le_rfl hle hb (hC.sound inv)
  room hroomy := by
    rw [ha.stack, hb.stack]
    exact h.room hroomy
  stack hexact := by
    rw [ha.stack, hb.stack]
    exact h.stack hexact

/-- Runs in step are in step inside frames. -/
theorem Meets.enter (h : C.Meets fuel w a b) {frame? frame?' : Option Frame}
    (hframe : frame?.isSome = frame?'.isSome) (hsame : τ.Agrees frame? frame?') {a₁ b₁ : State}
    (ha : a.enter frame? = .ok a₁) (hb : b.enter frame?' = .ok b₁) :
  C.Meets fuel w a₁ b₁
  := by
  have hroom := State.room_of_enter ha
  have hroom' := State.room_of_enter hb
  have hstack : τ.exact → a₁.stack = b₁.stack := by
    intro hexact
    cases hsame hexact
    exact State.enter_stack_congr (h.stack hexact) ha hb
  obtain ⟨stack, rfl, -⟩ := State.enter_eq (c := a) ha
  obtain ⟨stack', rfl, -⟩ := State.enter_eq (c := b) hb
  refine ⟨hC.inv_stack _ _ h.inv, hC.open_stack _ h.isOpen, ?_, hstack⟩
  intro hroomy
  have := h.room hroomy
  rw [hframe] at hroom
  omega

/-- Computations in lockstep come to related outcomes if the tasks that they ask for
do. -/
theorem Lawful.carries
    (htask : ∀ {task task' : Task} {S : World τ → task.Result → task'.Result → Prop},
      C.CarriesTask fuel task task' S) :
  C.Carries fuel
  := by
  intro α β R p q w a b x hrelated hmeets hresolve hends hallowed hcertain
  induction p generalizing q w a b with
  | finished result =>
    cases hrelated with
    | finished h =>
      cases hresolve
      exact ⟨_, rfl, .ok w le_rfl hmeets.inv h⟩
  | step op rest ih =>
    cases hrelated with
    | @step _ _ op' T _ rest' hop hnext =>
      have hstep := hC.operation hop hmeets.inv hmeets.stack
          (hC.within.operation hresolve hends) (by
        intro h
        obtain ⟨m, y, hy, hy'⟩ := hcertain h
        exact hC.within'.operation hy hy')
      have hgrows := op.grows first a
      have hgrows' := op'.grows second b
      rw [Progress.resolve] at hresolve
      rw [Progress.events] at hallowed
      simp only [Progress.resolve] at hcertain ⊢
      generalize op.apply first a = out at hstep hgrows hresolve hallowed
      generalize op'.apply second b = out' at hstep hgrows' hcertain
      cases hstep with
      | ok w' le inv result =>
        obtain ⟨y, hy, hends'⟩ := ih _ (hnext _ (hC.world_mono le) _ _ result)
          (hmeets.grows hC le inv hgrows hgrows') hresolve hallowed hcertain
        exact ⟨y, hy, hends'.weaken le⟩
      | error fails sound =>
        cases hresolve
        exact ⟨_, rfl, .error fails sound⟩
      | overflow cramped overflow sound => exact ⟨_, rfl, .overflow cramped overflow sound⟩
  | wait frame? task rest ih =>
    cases hrelated with
    | @wait _ _ frame?' _ task' S _ rest' hframe hsame hrel hnext =>
      obtain ⟨hexact, f, henter, rfl⟩ | ⟨a₁, x₁, henter, hperform, hends₁, hok, herror⟩ :=
        hC.within.task hresolve hends
      · -- On exact terms there is no room in either run.
        cases hsame hexact
        have henter' := State.enter_error_congr (hmeets.stack hexact)
          (hC.names hexact hmeets.inv) henter
        have hallows : τ.Allows f := by
          obtain ⟨hoverflow, -, -⟩ := State.overflow_of_enter henter
          rw [Failure.isOverflow.eq_def] at hoverflow
          split at hoverflow
          · trivial
          · cases hoverflow
        simp only [Progress.resolve, henter']
        exact ⟨_, rfl, .error (.refl hallows) ⟨w, le_rfl, hC.sound hmeets.inv⟩⟩
      rw [Progress.events] at hallowed
      simp only [henter, hperform] at hallowed
      cases henter' : b.enter frame?' with
      | error f' =>
        -- There is a frame more in the first run, so there is less room in the second.
        obtain ⟨hoverflow, hsome, hzero⟩ := State.overflow_of_enter henter'
        have hroom := State.room_of_enter henter
        rw [hframe, if_pos hsome] at hroom
        simp only [Progress.resolve, henter']
        refine ⟨_, rfl, .overflow ?_ hoverflow ⟨a, w, le_rfl, hC.sound hmeets.inv⟩⟩
        intro hroomy
        have := hmeets.room hroomy
        omega
      | ok b₁ =>
        have hcertain' : C.certain → ∃ m y₁, task'.perform second m b₁ = some y₁ ∧
            y₁.EndsIn τ C.Within' ∧ ∀ r b₂, y₁ = (.ok r, b₂) → ∃ y,
              (rest' r).resolve second (Task.perform second m) (b₂.leave frame?') = some y ∧
                y.EndsIn τ C.Within' := by
          intro h
          obtain ⟨m, y, hy, hy'⟩ := hcertain h
          obtain ⟨-, _, henter'', -⟩ | ⟨_, y₁, henter'', hy₁, hends, hrest, -⟩ :=
            hC.within'.task hy hy' <;> cases henter'.symm.trans henter''
          exact ⟨m, y₁, hy₁, hends, fun r b₂ heq => ⟨y, hrest r b₂ heq, hy'⟩⟩
        obtain ⟨y₁, hy₁, hends₂⟩ := htask hrel (hmeets.enter hC hframe hsame henter henter') hperform
          hends₁ (fun e he => hallowed e (List.mem_append_left _ he)) (by
            intro h
            obtain ⟨m, y₁, hy₁, hends, -⟩ := hcertain' h
            exact ⟨m, y₁, hy₁, hends⟩)
        simp only [Progress.resolve, henter', hy₁]
        have hleave' : y₁.2.leave frame?' = { y₁.2 with stack := b.stack } :=
          ((Task.grows hy₁).leave_eq henter').2
        cases hends₂ with
        | overflow cramped overflow sound =>
          obtain ⟨a₂, w', le, sound⟩ := sound
          refine ⟨_, rfl, .overflow cramped overflow ⟨a₂, w', le, ?_⟩⟩
          rw [hleave']
          exact hC.sound_stack a₂.stack _ sound
        | error fails sound =>
          cases herror _ _ rfl
          obtain ⟨w', le, sound⟩ := sound
          refine ⟨_, rfl, .error fails ⟨w', le, ?_⟩⟩
          rw [((Task.grows hperform).leave_eq henter).2, hleave']
          exact hC.sound_stack _ _ sound
        | @ok r r' a₂ b₂ w' le inv result =>
          have hgrows := Task.grows hperform
          have hgrows' := Task.grows hy₁
          have hinv : C.Inv w' (a₂.leave frame?) (b₂.leave frame?') := by
            rw [(hgrows.leave_eq henter).2, (hgrows'.leave_eq henter').2]
            exact hC.inv_stack _ _ inv
          obtain ⟨y, hy, hends'⟩ := ih r (hnext _ (hC.world_mono le) _ _ result)
            (hmeets.grows hC le hinv (hgrows.leave henter) (hgrows'.leave henter'))
            (hok _ _ rfl) (fun e he => hallowed e (List.mem_append_right _ he)) (by
              intro h
              obtain ⟨m, y₁, hy₁', -, hrest⟩ := hcertain' h
              cases Task.perform_unique hy₁' hy₁
              obtain ⟨y, hy, hy'⟩ := hrest _ _ rfl
              exact ⟨m, y, hy, hy'⟩)
          exact ⟨y, hy, hends'.weaken le⟩

/-- In a lawful comparison all related tasks come to related outcomes. -/
theorem Lawful.carriesTask (fuel : Nat) {task task' : Task}
    {S : World τ → task.Result → task'.Result → Prop} :
  C.CarriesTask fuel task task' S
  := by
  induction fuel using Nat.strongRecOn generalizing task task' with
  | ind fuel ih =>
  cases fuel with
  | zero =>
    intro w a b x _ _ hperform
    cases hperform
  | succ fuel =>
    have hcarries : ∀ fuel' ≤ fuel, C.Carries fuel' := by
      intro fuel' hle
      exact hC.carries fun {_ _ _} => ih fuel' (Nat.lt_succ_of_le hle)
    cases hkept : task.isKept with
    | true => exact fun {_ _ _ _} => hC.task hcarries hkept
    | false =>
      intro w a b x hrelated hmeets hperform hends hallowed hcertain
      have hkept' := hrelated.isKept_eq ▸ hkept
      rw [Task.perform_of_not_kept hkept] at hperform
      rw [Task.events_of_not_kept hkept] at hallowed
      rw [Task.perform_of_not_kept hkept']
      have hmeets : C.Meets fuel w a b :=
        ⟨hmeets.inv, hC.open_mono hmeets.isOpen (Nat.le_succ fuel) le_rfl (.refl second b)
          (hC.sound hmeets.inv), hmeets.room, hmeets.stack⟩
      apply hcarries fuel le_rfl (hrelated.action hC.agrees hkept a b) hmeets hperform hends
        hallowed
      intro h
      obtain ⟨m, y, hy, hy'⟩ := hcertain h
      cases m with
      | zero => cases hy
      | succ m =>
        rw [Task.perform_of_not_kept hkept'] at hy
        exact ⟨m, y, hy, hy'⟩

end

end Comparison

end Jsonnet
