import Mathlib.Order.Nat
import Mathlib.Tactic.Common
import Jsonnet.Eval.Run
import Jsonnet.Proofs.Codes
import Jsonnet.Proofs.Slots

/-!
# States only grow

Carrying out a task adds to a state and takes nothing away: names, thunks, slots and
objects that are there stay, a thunk that is ready keeps its value, an object that counts
as valid goes on doing so, and the values of fields, imports and external variables that
are kept are kept. The stack is the same afterwards as before.
-/

namespace Jsonnet

/-! ### Import caches -/

namespace ImportCache

variable {α : Type}

/-- A cache extends another one if it has the same answers and codes. -/
def Extends (old new : ImportCache α) : Prop :=
  ∀ (key : String × String) (entry : ImportEntry α), old.entries[key]? = some entry →
    ∃ entry' : ImportEntry α, new.entries[key]? = some entry' ∧ entry'.answer = entry.answer ∧
      ∀ code, entry.code = some code → entry'.code = some code

theorem Extends.refl (cache : ImportCache α) :
  cache.Extends cache
  := fun _ entry h => ⟨entry, h, rfl, fun _ hcode => hcode⟩

theorem Extends.trans {a b c : ImportCache α} (hab : a.Extends b) (hbc : b.Extends c) :
  a.Extends c
  := by
  intro key entry h
  obtain ⟨entry₁, h₁, hanswer₁, hcode₁⟩ := hab key entry h
  obtain ⟨entry₂, h₂, hanswer₂, hcode₂⟩ := hbc key entry₁ h₁
  exact ⟨entry₂, h₂, hanswer₂.trans hanswer₁, fun code hcode => hcode₂ _ (hcode₁ _ hcode)⟩

/-- Asking for a text extends. -/
theorem extends_resolve (cache : ImportCache α) (importer : Importer)
    (directory path : String) :
  cache.Extends (cache.resolve importer directory path).2
  := by
  rw [resolve]
  split
  case h_1 => apply Extends.refl
  case h_2 hnone =>
    intro key entry h
    use entry
    refine ⟨?_, rfl, fun _ hcode => hcode⟩
    rw [Std.HashMap.getElem?_insert, if_neg, h]
    intro heq
    rw [← beq_iff_eq.mp heq, hnone] at h
    cases h

/-- Keeping a first code extends. -/
theorem extends_setCode {cache : ImportCache α} {directory path : String} (code : α)
    (h : cache.code? directory path = none) :
  cache.Extends (cache.setCode directory path code)
  := by
  rw [setCode]
  split
  case h_2 => apply Extends.refl
  case h_1 old hold =>
    intro key entry hentry
    rw [Std.HashMap.getElem?_insert]
    split
    case isFalse => exact ⟨entry, hentry, rfl, fun _ hcode => hcode⟩
    case isTrue heq =>
      rw [← beq_iff_eq.mp heq, hold] at hentry
      cases hentry
      refine ⟨_, rfl, rfl, ?_⟩
      intro d hd
      rw [code?, hold, Option.bind_some, hd] at h
      cases h

end ImportCache

/-! ### Growth -/

/-- What the check of an object may come to, from how far it has come. -/
def AssertionState.Becomes : AssertionState → AssertionState → Prop
  | .notChecked, .inProgress => False
  | .notChecked, _ => True
  | old, new => new = old

/-- A state that comes after another one while nothing of the other is undone. A slot is
taken to stay only where slots have numbers of their own. -/
structure State.Grows (session : Session) (a b : State) : Prop where
  names : session.frontEnd.Appends → a.names ≤ b.names
  stack : b.stack = a.stack
  pending : ∀ {i : Nat} {suspension : Suspension}, a.thunks[i]? = some (.pending suspension) →
    b.thunks[i]? = some (.pending suspension) ∨ ∃ value, b.thunks[i]? = some (.ready value)
  ready : ∀ {i : Nat} {value : Value}, a.thunks[i]? = some (.ready value) →
    b.thunks[i]? = some (.ready value)
  slotCount : a.slots.size ≤ b.slots.size
  slot : b.slots.size ≤ maxSlot + 1 →
    ∀ {i : Nat} {deferred : Deferred}, a.slots.entries[i]? = some deferred → b.slots.entries[i]? = some deferred
  check : ∀ {i : Nat} {old : AssertionState}, a.checks[i]? = some old →
    ∃ new : AssertionState, b.checks[i]? = some new ∧ old.Becomes new
  /-- No check that is going on was begun in between. -/
  inProgress : ∀ {i : Nat}, b.checks[i]? = some .inProgress → a.checks[i]? = some .inProgress
  field : ∀ {key : FieldKey} {value : Value}, a.fields[key]? = some value → b.fields[key]? = some value
  imports : a.imports.Extends b.imports
  external : ∀ {name : Name} {deferred : Deferred}, a.externals[name]? = some deferred →
    b.externals[name]? = some deferred

theorem AssertionState.Becomes.refl (c : AssertionState) :
  c.Becomes c
  := by
  cases c <;> simp [Becomes]

theorem AssertionState.Becomes.trans {a b c : AssertionState} (hab : a.Becomes b)
    (hbc : b.Becomes c) :
  a.Becomes c
  := by
  cases a <;> cases b <;> simp_all [Becomes]

namespace State.Grows

variable {session : Session} {a b c : State}

theorem refl (session : Session) (a : State) :
  a.Grows session a
  where
  names _ := le_rfl
  stack := rfl
  pending h := .inl h
  ready h := h
  slotCount := le_rfl
  slot _ _ _ h := h
  check {_ old} h := ⟨old, h, .refl old⟩
  inProgress h := h
  field h := h
  imports := .refl _
  external h := h

theorem trans (hab : a.Grows session b) (hbc : b.Grows session c) :
  a.Grows session c
  where
  names hlaw := (hab.names hlaw).trans (hbc.names hlaw)
  stack := hbc.stack.trans hab.stack
  pending h := by
    obtain h | ⟨value, h⟩ := hab.pending h
    · exact hbc.pending h
    · exact .inr ⟨value, hbc.ready h⟩
  ready h := hbc.ready (hab.ready h)
  slotCount := hab.slotCount.trans hbc.slotCount
  slot hc _ _ h := hbc.slot hc (hab.slot (hbc.slotCount.trans hc) h)
  check h := by
    obtain ⟨mid, hmid, hbecomes⟩ := hab.check h
    obtain ⟨new, hnew, hbecomes'⟩ := hbc.check hmid
    exact ⟨new, hnew, hbecomes.trans hbecomes'⟩
  inProgress h := hab.inProgress (hbc.inProgress h)
  field h := hbc.field (hab.field h)
  imports := hab.imports.trans hbc.imports
  external h := hbc.external (hab.external h)

/-! ### Growth of the parts -/

theorem setNames {names : Interner} (h : session.frontEnd.Appends → a.names ≤ names) :
  a.Grows session { a with names }
  := { refl session a with names := h }

theorem setCounters (counters : Counters) :
  a.Grows session { a with counters }
  := { refl session a with }

theorem setImports {imports : ImportCache Deferred} (h : a.imports.Extends imports) :
  a.Grows session { a with imports }
  := { refl session a with imports := h }

theorem insertExternal {name : Name} (deferred : Deferred)
    (h : a.externals[name]? = none) :
  a.Grows session { a with externals := a.externals.insert name deferred }
  := by
  refine { refl session a with external := ?_ }
  intro other old hold
  rw [Std.HashMap.getElem?_insert, if_neg, hold]
  intro heq
  rw [← beq_iff_eq.mp heq, h] at hold
  cases hold

theorem pushCheck (session : Session) (a : State) :
  a.Grows session { a with checks := a.checks.push .notChecked }
  := by
  refine { refl session a with check := ?_, inProgress := ?_ }
  · intro i old h
    have hlt := (Array.getElem?_eq_some_iff.mp h).choose
    use old
    rw [Array.getElem?_push, if_neg (Nat.ne_of_lt hlt)]
    exact ⟨h, .refl old⟩
  · intro i h
    rw [Array.getElem?_push] at h
    split at h
    · cases h
    · exact h

theorem appendThunks (session : Session) (a : State) (cells : List Cell) :
  a.Grows session { a with thunks := a.thunks ++ cells }
  := by
  have hold : ∀ {i : Nat} {cell}, a.thunks[i]? = some cell →
      (a.thunks ++ cells)[i]? = some cell := by
    intro i cell h
    have hlt := (Array.getElem?_eq_some_iff.mp h).choose
    rw [← h, ← Array.getElem?_toList, ← Array.getElem?_toList, Array.toList_appendList]
    exact List.getElem?_append_left hlt
  exact { refl session a with
    pending h := .inl (hold h)
    ready h := hold h }

/-! ### Growth of operations -/

theorem newObject (session : Session) (a : State) (object : ObjectId → Object) :
  a.Grows session (a.newObject object).2
  := pushCheck session a

theorem share (session : Session) (a : State) (suspensions : List Suspension) :
  a.Grows session (a.share suspensions).2
  := appendThunks session a _

theorem bindLocals (session : Session) (a : State) (code : Code) (env : Env) (binds : List Bind) :
  a.Grows session (a.bindLocals code env binds).2
  := by
  have hsize := a.size_bindLocals_slots code env binds
  have hshare := appendThunks session a
    ((binds.map fun bind => Suspension.code (.thunk bind.name)
      (a.bindLocals code env binds).1 (code.sibling bind.body)).map Cell.pending)
  exact { hshare with
    slotCount := by
      rw [hsize]
      apply Nat.le_add_right
    slot := by
      intro hmax i deferred h
      rw [hsize] at hmax
      rw [a.bindLocals_eq code env binds hmax]
      exact a.localState_slot code env binds h }

theorem importText (session : Session) (a : State) (importer : Importer) (directory path : String) (site : Location) :
  a.Grows session (a.importText importer directory path site).2
  := by
  have h := a.imports.extends_resolve importer directory path
  rcases hresolve : a.imports.resolve importer directory path with ⟨answer, imports⟩
  rw [hresolve] at h
  simp only [State.importText, hresolve]
  cases answer <;> exact setImports h

theorem compile (session : Session) (a : State) (context : FrameContext) (file source : String) :
  a.Grows session (a.compile session context file source).2
  := by
  rcases hcompile : session.frontEnd a.names file source with ⟨compiled, names⟩
  have h : a.Grows session { a with names } := by
    apply setNames
    intro hlaw
    have := hlaw a.names file source
    rwa [hcompile] at this
  simp only [State.compile, hcompile]
  cases compiled with
  | program code =>
    have hpush := appendThunks session { a with names }
      [.pending (.code context session.base code)]
    simp only [Array.appendList_cons, Array.appendList_nil] at hpush
    exact h.trans hpush
  | rejected error => exact h
  | broken message => exact h

/-- Compiling touches no import. -/
theorem compile_imports (session : Session) (a : State) (context : FrameContext) (file source : String) :
  (a.compile session context file source).2.imports = a.imports
  := by
  rcases hcompile : session.frontEnd a.names file source with ⟨compiled, names⟩
  simp only [State.compile, hcompile]
  cases compiled <;> rfl

/-- Compiling touches no external variable. -/
theorem compile_externals (session : Session) (a : State) (context : FrameContext) (file source : String) :
  (a.compile session context file source).2.externals = a.externals
  := by
  rcases hcompile : session.frontEnd a.names file source with ⟨compiled, names⟩
  simp only [State.compile, hcompile]
  cases compiled <;> rfl

/-- Asking for a text that is not compiled leaves it not compiled. -/
theorem code?_importText (importer : Importer) (directory path : String) (site : Location)
    (h : a.imports.code? directory path = none) :
  (a.importText importer directory path site).2.imports.code? directory path = none
  := by
  have hresolve : (a.imports.resolve importer directory path).2.code? directory path
      = none := by
    rw [ImportCache.resolve]
    split
    case h_1 => exact h
    case h_2 => simp [ImportCache.code?]
  rcases hanswer : a.imports.resolve importer directory path with ⟨answer, imports⟩
  rw [hanswer] at hresolve
  simp only [State.importText, hanswer]
  cases answer <;> exact hresolve

theorem imported (session : Session) (a : State) (directory : String) (path : Name) (site : Location) :
  a.Grows session (a.imported session directory path site).2
  := by
  rw [State.imported]
  split
  case h_1 code hcode => apply refl
  case h_2 hcode =>
    have h₁ := importText session a session.importer directory
      (a.names.lookup path) site
    have hcode₁ := code?_importText session.importer directory (a.names.lookup path) site
      hcode
    rcases htext : a.importText session.importer directory (a.names.lookup path) site
      with ⟨outcome, b⟩
    rw [htext] at h₁ hcode₁
    cases outcome with
    | error failure => exact h₁
    | ok file =>
      have h₂ := compile session b (.importing path) file.foundAt
        file.content
      have himports := compile_imports session b (.importing path) file.foundAt
        file.content
      simp only
      rcases hcompile : b.compile session (.importing path) file.foundAt file.content
        with ⟨outcome, c⟩
      rw [hcompile] at h₂ himports
      cases outcome with
      | error failure => exact h₁.trans h₂
      | ok code =>
        apply (h₁.trans h₂).trans
        apply setImports
        apply ImportCache.extends_setCode
        rw [himports]
        exact hcode₁

theorem given (session : Session) (a : State) (external : External) (kind : String) (name : Name) (context : FrameContext) :
  a.Grows session (a.given session external kind name context).2
  := by
  cases external with
  | text value => apply refl
  | code source => apply compile

/-- Preparing a value from outside touches no external variable. -/
theorem given_externals (session : Session) (a : State) (external : External) (kind : String) (name : Name)
    (context : FrameContext) :
  (a.given session external kind name context).2.externals = a.externals
  := by
  cases external with
  | text value => rfl
  | code source => apply compile_externals

theorem externalValue (session : Session) (a : State) (name : Name) (given : External) :
  a.Grows session (a.external session name given).2
  := by
  rw [State.external]
  split
  case h_1 value hvalue => apply refl
  case h_2 hnone =>
    have h := Grows.given session a given "extvar" name (.external name)
    have hexternals := given_externals session a given "extvar" name
      (.external name)
    rcases hgiven : a.given session given "extvar" name (.external name) with ⟨outcome, b⟩
    rw [hgiven] at h hexternals
    cases outcome with
    | error failure => exact h
    | ok value =>
      apply h.trans
      apply insertExternal
      rw [hexternals]
      exact hnone

end State.Grows

/-- An operation only adds to a state. -/
theorem Operation.grows (session : Session) (state : State) (operation : Operation) :
  state.Grows session (operation.apply session state).2
  := by
  cases operation with
  | count step => apply State.Grows.setCounters
  | text name => apply State.Grows.refl
  | intern s =>
    rw [Operation.apply]
    split
    case h_1 name names h =>
      apply State.Grows.setNames
      intro _
      exact (Interner.tryIntern_ok h).1
    case h_2 => apply State.Grows.refl
  | internAll strings =>
    apply State.Grows.setNames
    intro _
    apply Interner.le_internAll
  | sort fields => apply State.Grows.refl
  | literal scope fields asserts =>
    exact State.Grows.newObject session state fun id => .leaf ⟨id, scope, fields, asserts⟩
  | combine left right =>
    exact State.Grows.newObject session state fun id => .combine id left right
  | share suspensions => apply State.Grows.share
  | bindLocals code env binds => apply State.Grows.bindLocals
  | slot id =>
    rw [Operation.apply]
    split <;> apply State.Grows.refl
  | importText directory path site => apply State.Grows.importText
  | imported directory path site => apply State.Grows.imported
  | external name given => apply State.Grows.externalValue
  | argument name given => apply State.Grows.given
  | raise cause site => apply State.Grows.refl
  | fail failure => apply State.Grows.refl

/-! ### Growth of tasks -/

namespace State

variable {session : Session} {a b c : State}

/-- Keeping the value of a thunk that is not ready. -/
theorem Grows.keepThunk {thunk : ThunkId} (h : a.Grows session b)
    (hready : ∀ value, a.thunks[thunk.index]? ≠ some (.ready value)) (value : Value) :
  a.Grows session (b.keepThunk thunk value)
  := by
  refine { h with pending := ?_, ready := ?_ }
  · intro i suspension hi
    by_cases heq : thunk.index = i
    · subst heq
      have hlt : thunk.index < b.thunks.size := by
        obtain hb | ⟨_, hb⟩ := h.pending hi <;>
          exact (Array.getElem?_eq_some_iff.mp hb).choose
      right
      use value
      simp [State.keepThunk, hlt]
    · simpa [State.keepThunk, Array.getElem?_setIfInBounds, heq] using h.pending hi
  · intro i old hi
    have hne : thunk.index ≠ i := by
      intro heq
      subst heq
      exact hready old hi
    simpa [State.keepThunk, Array.getElem?_setIfInBounds, hne] using h.ready hi

/-- Keeping the value of a field that was not kept. -/
theorem Grows.keepField {key : FieldKey} (h : a.Grows session b)
    (hnone : a.fields[key]? = none) (value : Value) :
  a.Grows session (b.keepField key value)
  := by
  refine { h with field := ?_ }
  intro other old hold
  simp only [State.keepField]
  rw [Std.HashMap.getElem?_insert, if_neg, h.field hold]
  intro heq
  rw [← beq_iff_eq.mp heq, hnone] at hold
  cases hold

/-- The state of an object's assertions after it was set. -/
theorem getElem?_setCheck (object : Object) (check : AssertionState) (i : Nat) :
  (setCheck object check a).checks[i]?
    = if object.id.index = i then a.checks[i]?.map fun _ => check else a.checks[i]?
  := by
  simp only [setCheck, Array.getElem?_setIfInBounds]
  split
  case isFalse => rfl
  case isTrue h =>
    subst h
    split
    case isTrue hlt => simp [hlt]
    case isFalse hge => simp [Array.getElem?_eq_none (Nat.not_lt.mp hge)]

/-- Ending the check of an object that was not checked. -/
theorem Grows.endCheck {object : Object} {check : AssertionState}
    (h : (setCheck object .inProgress a).Grows session b)
    (hopen : checkOf object a = .notChecked) (hcheck : check ≠ .inProgress) :
  a.Grows session (setCheck object check b)
  := by
  refine { h with check := ?_, inProgress := ?_ }
  · intro i old hold
    rw [getElem?_setCheck]
    split
    case isFalse hne =>
      apply h.check
      rw [getElem?_setCheck, if_neg hne, hold]
    case isTrue heq =>
      subst heq
      have hbegun : (setCheck object .inProgress a).checks[object.id.index]?
          = some .inProgress := by
        rw [getElem?_setCheck, if_pos rfl, hold]
        rfl
      obtain ⟨new, hnew, -⟩ := h.check hbegun
      rw [checkOf, hold] at hopen
      cases hopen
      rw [hnew]
      use check
      cases check <;> simp_all [AssertionState.Becomes]
  · intro i hi
    rw [getElem?_setCheck] at hi
    split at hi
    case isTrue =>
      obtain ⟨_, -, heq⟩ := Option.map_eq_some_iff.mp hi
      exact absurd heq hcheck
    case isFalse hne =>
      have hbegun := h.inProgress hi
      rwa [getElem?_setCheck, if_neg hne] at hbegun

/-- Entering a frame pushes it. -/
theorem enter_eq {frame? : Option Frame} (h : a.enter frame? = .ok b) :
  ∃ stack, b = { a with stack } ∧ ({ c with stack } : State).leave frame?
    = { c with stack := a.stack }
  := by
  cases frame? with
  | none =>
    cases h
    exact ⟨a.stack, rfl, rfl⟩
  | some frame =>
    rw [State.enter] at h
    split at h
    case h_1 => cases h
    case h_2 stack hpush =>
      cases h
      use stack, rfl
      rw [leave, CallStack.pop_of_push? hpush]

/-- Leaving a frame undoes entering it. -/
theorem Grows.leave_eq {frame? : Option Frame} (henter : a.enter frame? = .ok b)
    (h : b.Grows session c) :
  b = { a with stack := b.stack } ∧ c.leave frame? = { c with stack := a.stack }
  := by
  obtain ⟨stack, rfl, hleave⟩ := enter_eq (c := c) henter
  have hc : c = { c with stack } := by
    rw [← show c.stack = stack from h.stack]
  rw [hc, hleave]
  exact ⟨rfl, rfl⟩

/-- What is carried out inside a frame leaves the stack as it was. -/
theorem Grows.leave {frame? : Option Frame} (henter : a.enter frame? = .ok b)
    (h : b.Grows session c) :
  a.Grows session (c.leave frame?)
  := by
  obtain ⟨hb, hleave⟩ := h.leave_eq henter
  rw [hleave]
  rw [hb] at h
  exact { h with stack := rfl }

/-! ### What is never lost -/

/-- Whether slots have numbers of their own. -/
def HasSlots (a : State) : Prop := a.slots.size ≤ maxSlot + 1

/-- What later states keep, whether or not they come from the same run: names, slots and
the checks that have passed. -/
structure Keeps (a b : State) : Prop where
  names : a.names ≤ b.names
  slot : ∀ {i : Nat} {deferred : Deferred}, a.slots.entries[i]? = some deferred →
    b.slots.entries[i]? = some deferred
  passed : ∀ {i : Nat}, a.checks[i]? = some .passed → b.checks[i]? = some .passed

theorem Keeps.refl (a : State) :
  a.Keeps a
  := ⟨le_rfl, id, id⟩

/-- The stack does not matter. -/
theorem Keeps.setStack (a : State) (stack : CallStack) :
  a.Keeps { a with stack }
  := ⟨le_rfl, id, id⟩

theorem Grows.keeps (h : a.Grows session b) (lawful : session.frontEnd.Lawful)
    (hasSlots : b.HasSlots) :
  a.Keeps b
  where
  names := h.names lawful.grows
  slot := h.slot hasSlots
  passed hi := by
    obtain ⟨new, hnew, hbecomes⟩ := h.check hi
    cases hbecomes
    exact hnew

theorem Grows.hasSlots (h : a.Grows session b) (hasSlots : b.HasSlots) :
  a.HasSlots
  := h.slotCount.trans hasSlots

end State

/-- A computation only adds to a state if the tasks that it asks for do. -/
theorem Progress.grows {α : Type} {session : Session} {progress : Progress α}
    {carryOut : (task : Task) → State → Option (Outcome task.Result)}
    (hcarry : ∀ {task a outcome b}, carryOut task a = some (outcome, b) → a.Grows session b)
    {a b : State} {outcome : Except Failure α}
    (h : progress.resolve session carryOut a = some (outcome, b)) :
  a.Grows session b
  := by
  induction progress generalizing a with
  | finished result =>
    cases h
    apply State.Grows.refl
  | step operation next ih =>
    have hgrows := operation.grows session a
    rw [resolve] at h
    split at h
    case h_1 result mid happly =>
      rw [happly] at hgrows
      exact hgrows.trans (ih result h)
    case h_2 failure mid happly =>
      rw [happly] at hgrows
      cases h
      exact hgrows
  | wait frame? task next ih =>
    rw [resolve] at h
    split at h
    case h_1 =>
      cases h
      apply State.Grows.refl
    case h_2 inside henter =>
      split at h
      case h_1 => cases h
      case h_2 result mid hmid => exact ((hcarry hmid).leave henter).trans (ih result h)
      case h_3 failure mid hmid =>
        cases h
        exact (hcarry hmid).leave henter

/-- What a task has added to a state stays there when the task is settled. -/
theorem State.Grows.settle {session : Session} {task : Task} {a b : State}
    (unknown : task.known? session a = none) (h : (task.begin a).Grows session b)
    (outcome : Except Failure task.Result) :
  a.Grows session (task.settle session b outcome)
  := by
  cases task with
  | force thunk =>
    change a.Grows session b at h
    cases outcome with
    | error failure => exact h
    | ok value =>
      rw [Task.settle]
      split
      case isFalse => exact h
      case isTrue =>
        apply h.keepThunk
        intro old hold
        simp only [Task.known?, hold] at unknown
        cases unknown
  | check object =>
    apply h.endCheck
    · by_contra hne
      rw [Task.known?, if_pos] at unknown
      · cases unknown
      · simp [Object.isSettled, hne]
    · split <;> simp
  | field object leaf depth name site =>
    change a.Grows session b at h
    cases outcome with
    | error failure => exact h
    | ok value =>
      rw [Task.settle]
      split
      case isFalse => exact h
      case isTrue hsharing =>
        apply h.keepField
        rw [Task.known?, if_pos hsharing] at unknown
        exact unknown
  | _ => exact h

/-- A task only adds to a state. -/
theorem Task.grows {session : Session} {fuel : Nat} {task : Task} {a b : State}
    {outcome : Except Failure task.Result}
    (h : task.perform session fuel a = some (outcome, b)) :
  a.Grows session b
  := by
  induction fuel generalizing task a b with
  | zero => cases h
  | succ fuel ih =>
    rw [perform] at h
    split at h
    case h_1 result known =>
      cases h
      apply State.Grows.refl
    case h_2 unknown =>
      split at h
      case h_1 => cases h
      case h_2 outcome mid hresolve =>
        cases h
        exact (Progress.grows ih hresolve).settle unknown outcome

/-! ### Import caches at the ends of tasks -/

/-- A state and the one outside its frame hold the same imports. -/
theorem State.imports_of_enter {a b : State} {frame? : Option Frame}
    (h : a.enter frame? = .ok b) :
  b.imports = a.imports
  := by
  obtain ⟨stack, rfl, -⟩ := enter_eq (c := b) h
  rfl

theorem State.leave_imports (a : State) (frame? : Option Frame) :
  (a.leave frame?).imports = a.imports
  := by
  cases frame? <;> rfl

/-- Beginning a task leaves the stack as it is. -/
theorem Task.begin_stack (task : Task) (a : State) :
  (task.begin a).stack = a.stack
  := by
  cases task <;> rfl

theorem Task.begin_imports (task : Task) (a : State) :
  (task.begin a).imports = a.imports
  := by
  cases task <;> rfl

theorem Task.settle_imports (session : Session) (task : Task) (a : State)
    (outcome : Except Failure task.Result) :
  (task.settle session a outcome).imports = a.imports
  := by
  cases task with
  | force thunk =>
    cases outcome with
    | error failure => rfl
    | ok value =>
      rw [settle]
      split <;> rfl
  | field object leaf depth name site =>
    cases outcome with
    | error failure => rfl
    | ok value =>
      rw [settle]
      split <;> rfl
  | _ => rfl

end Jsonnet
