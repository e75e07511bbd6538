import Jsonnet.Proofs.Clients
import Jsonnet.Proofs.Forcing
import Jsonnet.Proofs.Lookup

/-!
# Assertions are sound

An object passes only by a check in which all of its assertions evaluate to true, and what
reads an object with assertions to its end leaves that object passed, unless it is part of the
check of that very object. When control is back at the caller no check is going on.
-/

namespace Jsonnet

/-! ### What a check evaluates -/

/-- The assertions of an object in the order in which they have to be evaluated: literal by
literal, the most derived first, and in a literal as they are written. With each of them comes
the position of its literal, as far as positions are counted. -/
def Object.orderedAssertions (o : Object) : List (Leaf × Nat × Member) :=
  o.literals.zipIdx.flatMap fun (l, position) => l.asserts.map (l, min position maxLeaves, ·)

/-- Some assertions of an object evaluate to true one after the other, each with the object as
`self` and the position of its literal as depth. -/
inductive Object.Confirms (session : Session) (o : Object) :
    List (Leaf × Nat × Member) → State → State → Prop where
  | nil (a : State) : Confirms session o [] a a
  | ready {l : Leaf} {depth : Nat} {rest : List (Leaf × Nat × Member)} {a b : State}
      (others : Confirms session o rest a b) :
    Confirms session o ((l, depth, .ready (.bool true)) :: rest) a b
  | code {l : Leaf} {depth : Nat} {body : Code} {extendsSuper : Bool}
      {rest : List (Leaf × Nat × Member)} {a b c : State}
      (holds : (body.evaluateIn .assertion ⟨l.scope, some o, depth⟩).Gives session a
        (.bool true) b)
      (others : Confirms session o rest b c) :
    Confirms session o ((l, depth, .code body extendsSuper) :: rest) a c

section

variable {made : List Object} {o : Object}

/-- A proper object is put together of literals. -/
theorem Object.IsProper.composed {S : Standard} (h : o.IsProper S made) :
  o.Composed
  := by
  induction h with
  | leaf _ => exact .leaf _
  | combine id _ _ left right => exact .combine id left right

theorem Object.IsGenuine.composed (h : o.IsGenuine made) :
  o.Composed
  := (Object.isProper_any.mpr h).composed

/-- A check evaluates the assertions of a genuine object in their order. -/
theorem Object.IsGenuine.assertions_eq (h : o.IsGenuine made) :
  o.assertions = o.orderedAssertions
  := by
  have leaves : o.leaves = _ := h.composed.leavesFrom_eq 0
  rw [Object.assertions, leaves, List.flatMap_map, orderedAssertions]

end

/-! ### How an object passes -/

namespace State

variable (session : Session) (a : State)

/-- Compiling neither checks objects nor keeps fields. -/
theorem compile_keeps (context : FrameContext) (file source : String) :
  (a.compile session context file source).2.checks = a.checks ∧
    (a.compile session context file source).2.fields = a.fields
  := by
  rcases hcompile : session.frontEnd a.names file source with ⟨compiled, names⟩
  simp only [compile, hcompile]
  cases compiled <;> exact ⟨rfl, rfl⟩

/-- Asking for a text neither checks objects nor keeps fields. -/
theorem importText_keeps (importer : Importer) (directory path : String) (site : Location) :
  (a.importText importer directory path site).2.checks = a.checks ∧
    (a.importText importer directory path site).2.fields = a.fields
  := by
  rcases hresolve : a.imports.resolve importer directory path with ⟨answer, imports⟩
  simp only [importText, hresolve]
  cases answer <;> exact ⟨rfl, rfl⟩

/-- Preparing a value from outside neither checks objects nor keeps fields. -/
theorem given_keeps (external : External) (kind : String) (name : Name) (context : FrameContext) :
  (a.given session external kind name context).2.checks = a.checks ∧
    (a.given session external kind name context).2.fields = a.fields
  := by
  cases external with
  | text value => exact ⟨rfl, rfl⟩
  | code source => apply compile_keeps

/-- Importing code neither checks objects nor keeps fields. -/
theorem imported_keeps (directory : String) (path : Name) (site : Location) :
  (a.imported session directory path site).2.checks = a.checks ∧
    (a.imported session directory path site).2.fields = a.fields
  := by
  rw [imported]
  split
  · exact ⟨rfl, rfl⟩
  · have h := a.importText_keeps session.importer directory (a.names.lookup path) site
    split
    case h_1 heq => rwa [heq] at h
    case h_2 file b heq =>
      rw [heq] at h
      have h' := b.compile_keeps session (.importing path) file.foundAt file.content
      split
      case h_1 heq =>
        rw [heq] at h'
        exact ⟨h'.1.trans h.1, h'.2.trans h.2⟩
      case h_2 heq =>
        rw [heq] at h'
        exact ⟨h'.1.trans h.1, h'.2.trans h.2⟩

/-- Using an external variable neither checks objects nor keeps fields. -/
theorem external_keeps (name : Name) (given : External) :
  (a.external session name given).2.checks = a.checks ∧
    (a.external session name given).2.fields = a.fields
  := by
  rw [external]
  split
  · exact ⟨rfl, rfl⟩
  · have h := a.given_keeps session given "extvar" name (.external name)
    split
    case h_1 heq => rwa [heq] at h
    case h_2 heq => rwa [heq] at h

end State

/-- An operation makes objects that are unchecked and leaves the checks of all others alone. -/
theorem Operation.checks_apply (session : Session) (a : State) (operation : Operation) :
  (operation.apply session a).2.checks = a.checks ∨
    (operation.apply session a).2.checks = a.checks.push .notChecked
  := by
  cases operation with
  | literal scope fields asserts => exact .inr rfl
  | combine left right => exact .inr rfl
  | intern s =>
    left
    rw [apply]
    split <;> rfl
  | slot id =>
    left
    rw [apply]
    split <;> rfl
  | importText directory path site =>
    exact .inl (a.importText_keeps session.importer directory path site).1
  | imported directory path site => exact .inl (a.imported_keeps session directory path site).1
  | external name external => exact .inl (a.external_keeps session name external).1
  | argument name external => exact .inl (a.given_keeps session external _ _ _).1
  | _ => exact .inl rfl

/-- An operation keeps no field. -/
theorem Operation.fields_apply (session : Session) (a : State) (operation : Operation) :
  (operation.apply session a).2.fields = a.fields
  := by
  cases operation with
  | intern s =>
    rw [apply]
    split <;> rfl
  | slot id =>
    rw [apply]
    split <;> rfl
  | importText directory path site =>
    exact (a.importText_keeps session.importer directory path site).2
  | imported directory path site => exact (a.imported_keeps session directory path site).2
  | external name external => exact (a.external_keeps session name external).2
  | argument name external => exact (a.given_keeps session external _ _ _).2
  | _ => rfl

/-- An object that has passed after an operation had passed before it. -/
theorem Operation.passed_of_apply {session : Session} {a b : State} {operation : Operation}
    {outcome : Except Failure operation.Result} (h : operation.apply session a = (outcome, b))
    {i : Nat} (hi : b.checks[i]? = some .passed) :
  a.checks[i]? = some .passed
  := by
  have checks := operation.checks_apply session a
  rw [h] at checks
  obtain heq | heq := checks
  · rwa [← heq]
  · rw [heq, Array.getElem?_push] at hi
    split at hi
    · cases hi
    · exact hi

section

variable {session : Session} {fuel : Nat} {o : Object} {a b : State}

/-- Only the value true is accepted. -/
theorem eq_true_of_acceptAssertion {v : Value} {site : Location}
    (h : (acceptAssertion v site session).resolve session (Task.perform session fuel) a
      = some (.ok (), b)) :
  v = .bool true ∧ b = a
  := by
  unfold acceptAssertion at h
  split at h
  · cases h
    exact ⟨rfl, rfl⟩
  · cases h
  · cases h

/-- What is checked to the end is confirmed. -/
theorem Object.confirms_of_checkAssertions {assertions : List (Leaf × Nat × Member)}
    (h : (checkAssertions o assertions session).resolve session (Task.perform session fuel) a
      = some (.ok (), b)) :
  o.Confirms session assertions a b
  := by
  induction assertions generalizing a with
  | nil =>
    cases h
    exact .nil _
  | cons assertion rest ih =>
    obtain ⟨l, depth, member⟩ := assertion
    obtain ⟨_, a₁, hfirst, hrest⟩ := Progress.resolve_bind_ok h
    cases member with
    | ready v =>
      obtain ⟨rfl, rfl⟩ := eq_true_of_acceptAssertion hfirst
      exact .ready (ih hrest)
    | code body extendsSuper =>
      obtain ⟨v, a₂, hv, haccept⟩ := Progress.resolve_bind_ok hfirst
      obtain ⟨rfl, rfl⟩ := eq_true_of_acceptAssertion haccept
      exact .code (Action.gives_of_resolve hv) (ih hrest)

end

/-- A computation in which an object passes comes to a moment at which the check of the object
is about to begin, and the assertions of the object are confirmed from there on. -/
def Progress.Passes (session : Session) {α : Type} (p : Progress α) (a : State) (i : Nat) : Prop :=
  ∃ above o s c, p.Moment session a above (.check o) s ∧ o.id.index = i ∧
    o.isSettled s = false ∧ o.Confirms session o.assertions (setCheck o .inProgress s) c

section

variable {session : Session} {i : Nat}

/-- What has to be shown of tasks for objects to pass in a check only. -/
def Task.PassesObjects (session : Session) (fuel : Nat) : Prop :=
  ∀ {task : Task} {a b : State} {x : Except Failure task.Result} {i : Nat},
    task.perform session fuel a = some (x, b) → b.checks[i]? = some .passed →
    a.checks[i]? = some .passed ∨ (Progress.wait none task .finished).Passes session a i

theorem Progress.passes_of_resolve {fuel : Nat} (tasks : Task.PassesObjects session fuel)
    {α : Type} {p : Progress α} {a b : State} {x : Except Failure α}
    (h : p.resolve session (Task.perform session fuel) a = some (x, b))
    (hi : b.checks[i]? = some .passed) :
  a.checks[i]? = some .passed ∨ p.Passes session a i
  := by
  induction p generalizing a with
  | finished result =>
    cases h
    exact .inl hi
  | step operation next ih =>
    rw [resolve] at h
    split at h
    case h_1 r c taken =>
      obtain hc | ⟨above, o, s, d, moment, rest⟩ := ih r h
      · exact .inl (Operation.passed_of_apply taken hc)
      · exact .inr ⟨above, o, s, d, .step taken moment, rest⟩
    case h_2 failure c taken =>
      cases h
      exact .inl (Operation.passed_of_apply taken hi)
  | wait frame? task next ih =>
    -- What has passed after the task had passed before it, or passes in it.
    have first : ∀ {s₀ c : State} {y : Except Failure task.Result}, a.enter frame? = .ok s₀ →
        task.perform session fuel s₀ = some (y, c) → c.checks[i]? = some .passed →
        a.checks[i]? = some .passed ∨ (Progress.wait frame? task next).Passes session a i := by
      intro s₀ c y enters ends hc
      obtain h | ⟨above, o, s, d, moment, rest⟩ := tasks ends hc
      · rw [State.checks_of_enter enters] at h
        exact .inl h
      · right
        refine ⟨above, o, s, d, ?_, rest⟩
        obtain ⟨b, enters', h⟩ := moment.cases_wait
        cases enters'
        obtain ⟨rfl, rfl, rfl⟩ | ⟨inner, rfl, unknown, moment⟩ | ⟨_, _, _, _, moment⟩ := h
        · exact .asked enters
        · exact .inside enters unknown moment
        · cases moment
    rw [resolve] at h
    split at h
    case h_1 =>
      cases h
      exact .inl hi
    case h_2 s₀ enters =>
      split at h
      case h_1 => cases h
      case h_2 r c ends =>
        obtain hc | ⟨above, o, s, d, moment, rest⟩ := ih r h
        · rw [State.leave_checks] at hc
          exact first enters ends hc
        · exact .inr ⟨above, o, s, d, .later enters ends moment, rest⟩
      case h_3 failure c ends =>
        cases h
        rw [State.leave_checks] at hi
        exact first enters ends hi

theorem Task.settle_checks {task : Task} {a : State} {x : Except Failure task.Result}
    (h : (task.settle session a x).checks[i]? = some .passed) :
  a.checks[i]? = some .passed ∨ ∃ o, task = .check o ∧ o.id.index = i ∧ x.isOk = true
  := by
  cases task with
  | check o =>
    rw [settle, State.getElem?_setCheck] at h
    split at h
    case isTrue heq =>
      right
      refine ⟨o, rfl, heq, ?_⟩
      obtain ⟨_, -, h⟩ := Option.map_eq_some_iff.mp h
      split at h
      case isTrue ok => exact ok
      case isFalse => cases h
    case isFalse => exact .inl h
  | force t =>
    left
    cases x with
    | error failure => exact h
    | ok v =>
      rw [settle] at h
      split at h <;> exact h
  | field o l depth name site =>
    left
    cases x with
    | error failure => exact h
    | ok v =>
      rw [settle] at h
      split at h <;> exact h
  | _ => exact .inl h

theorem Task.passed_of_begin {task : Task} {a : State}
    (h : (task.begin a).checks[i]? = some .passed) :
  a.checks[i]? = some .passed
  := by
  cases task with
  | check o =>
    rw [begin, State.getElem?_setCheck] at h
    split at h
    case isTrue =>
      obtain ⟨_, -, h⟩ := Option.map_eq_some_iff.mp h
      cases h
    case isFalse => exact h
  | _ => exact h

/-- An object that has passed after a task had passed before it, or passes in it. -/
theorem Task.passesObjects (session : Session) (fuel : Nat) :
  Task.PassesObjects session fuel
  := by
  induction fuel with
  | zero =>
    intro task a b x i h
    cases h
  | succ fuel ih =>
    intro task a b x i h hi
    rw [perform] at h
    split at h
    case h_1 =>
      cases h
      exact .inl hi
    case h_2 unknown =>
      split at h
      case h_1 => cases h
      case h_2 outcome mid ends =>
        cases h
        obtain hmid | ⟨o, rfl, rfl, ok⟩ := Task.settle_checks hi
        · obtain ha | ⟨above, o, s, d, moment, rest⟩ := Progress.passes_of_resolve ih ends hmid
          · exact .inl (Task.passed_of_begin ha)
          · exact .inr ⟨_, o, s, d, .inside rfl unknown moment, rest⟩
        · right
          cases x with
          | error failure => cases ok
          | ok r =>
            refine ⟨[], o, a, mid, .asked rfl, rfl, ?_, Object.confirms_of_checkAssertions ends⟩
            simpa [known?] using unknown

end

/-! ### What reading an object leaves behind -/

/-- The tasks that read an object: reading a field from a depth on, and writing the object
out. -/
inductive Task.Reads (o : Object) : Task → Prop where
  | field (minDepth : Nat) (name : Name) (site : Location) :
    Reads o (.readField o minDepth name site)
  | document : Reads o (.document (.object o))

section

variable {session : Session} {fuel : Nat} {o : Object} {a b : State}

/-- What has passed still has in a later state. -/
theorem State.Grows.checkOf_passed (h : a.Grows session b) (ha : checkOf o a = .passed) :
  checkOf o b = .passed
  := by
  have hi : a.checks[o.id.index]? = some .passed := by
    rw [checkOf] at ha
    cases hcheck : a.checks[o.id.index]? with
    | none => rw [hcheck] at ha; cases ha
    | some check =>
      rw [hcheck] at ha
      cases ha
      rfl
  obtain ⟨new, hnew, becomes⟩ := h.check hi
  rw [checkOf, hnew, becomes]
  rfl

/-- A check that succeeds leaves an object with assertions passed, unless a check of the object
was going on. -/
theorem Task.passed_of_check {r : Unit}
    (h : (Task.check o).perform session fuel a = some (.ok r, b)) (hasAsserts : o.hasAsserts = true)
    (hlt : o.id.index < a.checks.size) :
  checkOf o b = .passed ∨ a.checks[o.id.index]? = some .inProgress
  := by
  have hcheck : a.checks[o.id.index]? = some (checkOf o a) := by
    rw [checkOf, Array.getElem?_eq_getElem hlt]
    rfl
  cases fuel with
  | zero => cases h
  | succ fuel =>
    cases known : (Task.check o).known? session a with
    | some r =>
      rw [perform, known] at h
      cases h
      rw [hcheck]
      cases hstate : checkOf o a with
      | passed => exact .inl rfl
      | inProgress => exact .inr rfl
      | notChecked => simp [known?, Object.isSettled, hasAsserts, hstate] at known
    | none =>
      left
      rw [perform_unknown known] at h
      obtain ⟨⟨outcome, mid⟩, ends, heq⟩ := Option.map_eq_some_iff.mp h
      cases heq
      have grows := Progress.grows Task.grows ends
      have begun : ((Task.check o).begin a).checks[o.id.index]? = some .inProgress := by
        rw [begin, State.getElem?_setCheck, if_pos rfl, hcheck]
        rfl
      obtain ⟨new, hnew, -⟩ := grows.check begun
      rw [checkOf, settle, State.getElem?_setCheck, if_pos rfl, hnew]
      rfl

/-- A task that reads an object with assertions leaves it passed, unless a check of the object
was going on. -/
theorem Task.Reads.passed {task : Task} (reads : task.Reads o) {r : task.Result}
    (h : task.perform session fuel a = some (.ok r, b)) (hasAsserts : o.hasAsserts = true)
    (hlt : o.id.index < a.checks.size) :
  checkOf o b = .passed ∨ a.checks[o.id.index]? = some .inProgress
  := by
  cases fuel with
  | zero => cases h
  | succ fuel =>
    cases reads with
    | field minDepth name site =>
      rw [perform_unknown rfl] at h
      obtain ⟨⟨outcome, mid⟩, ends, heq⟩ := Option.map_eq_some_iff.mp h
      cases heq
      obtain ⟨_, c, check, rest⟩ := Progress.resolve_bind_ok ends
      obtain passed | going := passed_of_check (Progress.resolve_request check) hasAsserts hlt
      · exact .inl ((Progress.grows Task.grows rest).checkOf_passed passed)
      · exact .inr going
    | document =>
      rw [perform_unknown rfl] at h
      obtain ⟨⟨outcome, mid⟩, ends, heq⟩ := Option.map_eq_some_iff.mp h
      cases heq
      obtain ⟨_, c, check, rest⟩ := Progress.resolve_bind_ok ends
      obtain passed | going := passed_of_check (Progress.resolve_request check) hasAsserts hlt
      · exact .inl ((Progress.grows Task.grows rest).checkOf_passed passed)
      · exact .inr going

end

/-! ### Whole runs -/

/-- Whether there is a check of an object in some calls in which all of its assertions evaluate
to true, in their order. -/
def Object.ConfirmedIn (session : Session) (o : Object) (calls : List (Call × State)) : Prop :=
  ∃ call ∈ calls, ∃ above s c,
    (call.1.action session).Moment session call.2 above (.check o) s ∧ o.isSettled s = false ∧
      o.Confirms session o.orderedAssertions (setCheck o .inProgress s) c

section

variable {session : Session} {i : Nat} {o : Object} {a b : State}

theorem checkOf_eq_passed (h : checkOf o a = .passed) :
  a.checks[o.id.index]? = some .passed
  := by
  rw [checkOf] at h
  cases hcheck : a.checks[o.id.index]? with
  | none =>
    rw [hcheck] at h
    cases h
  | some check =>
    rw [hcheck] at h
    exact congrArg some h

/-- What holds when control is back at a client: everything is genuine, no check goes on, and an
object that has passed has been confirmed. -/
theorem Session.History.confirmed {names : Interner} (prepared : session.Prepared names)
    {limit : Nat} {calls : List (Call × State)} {values : List Value}
    (h : session.History (.new names limit) calls a values) :
  ∃ made, a.IsGenuine session made ∧ (∀ v ∈ values, Genuine made (.value v)) ∧
    (∀ i : Nat, a.checks[i]? ≠ some .inProgress) ∧
    ∀ o : Object, o.MadeIn made → checkOf o a = .passed → o.ConfirmedIn session calls
  := by
  induction h with
  | start =>
    have unchecked : ∀ {i : Nat} {check : AssertionState},
        (State.new names limit).checks[i]? = some check → check = .notChecked := by
      intro i check h
      exact List.mem_singleton.mp (List.mem_of_getElem? (Array.getElem?_toList.trans h))
    have genuine := prepared.isGenuine limit
    refine ⟨_, genuine, ?_, ?_, ?_⟩
    · intro v hv
      cases List.mem_singleton.mp hv
      exact .object genuine.library
    · intro i h
      cases unchecked h
    · intro o _ hpassed
      cases unchecked (checkOf_eq_passed hpassed)
  | names before le ih =>
    obtain ⟨made, genuine, rest⟩ := ih
    exact ⟨made, genuine.congr rfl rfl rfl rfl rfl rfl, rest⟩
  | @call calls a b values call fuel outcome before uses run ih =>
    obtain ⟨made, genuine, hvalues, idle, passed⟩ := ih
    obtain ⟨last, hle, hb, hgiven, upright⟩ := (uses.makes genuine hvalues).run genuine run
    obtain ⟨fuel, run⟩ := Action.run_iff.mp ⟨fuel, run⟩
    refine ⟨last, hb, ?_, fun i h => idle i ((Progress.grows Task.grows run).inProgress h), ?_⟩
    · intro v hv
      obtain hv | hv := List.mem_append.mp hv
      · cases outcome with
        | ok r => exact hgiven r rfl v hv
        | error failure => cases call <;> cases hv
      · exact (hvalues v hv).mono hle
    · intro o ho hpassed
      obtain ha | ⟨above, p, s, c, moment, hid, unsettled, confirms⟩ :=
        Progress.passes_of_resolve (Task.passesObjects session fuel) run (checkOf_eq_passed hpassed)
      · -- An object that had passed before the call had been made before it.
        have hlt : o.id.index < made.length := by
          rw [genuine.count]
          exact (Array.getElem?_eq_some_iff.mp ha).choose
        have ho' : o.MadeIn made := by
          have hlast := Origins.getElem?_of_prefix hle (List.getElem?_eq_getElem hlt)
          rw [Object.MadeIn, List.getElem?_eq_getElem hlt]
          exact hlast.symm.trans ho
        obtain ⟨call, mem, rest⟩ := passed o ho' (by rw [checkOf, ha]; rfl)
        exact ⟨call, List.mem_cons_of_mem _ mem, rest⟩
      · obtain ⟨more, -, hlast, hs, hp, -⟩ := upright above _ s moment
        have heq : p = o := by
          have hp : last[p.id.index]? = some p := Object.MadeIn.mono hp hlast
          rw [hid] at hp
          exact Option.some.inj (hp.symm.trans ho)
        subst heq
        rw [((State.isProper_any.mp hs).object hp).assertions_eq] at confirms
        exact ⟨_, List.mem_cons_self, above, s, c, moment, unsettled, confirms⟩

end

end Jsonnet
