import Jsonnet.Proofs.Frames
import Jsonnet.Proofs.Lookup
import Jsonnet.Proofs.Measuring

/-!
# Runs make proper data

Carrying out a task on a proper state comes to a proper outcome, and at every moment in between
the state and the tasks that are going on are proper, as long as the code from outside and the
sizes that are measured meet the standard. Genuine data are what the standard asks for that
anything meets, so runs make genuine data whatever comes from outside.
-/

namespace Jsonnet

section

variable {S : Standard} {session : Session} {start : Interner} {made : List Object} {a : State}

theorem State.IsProper.enter (h : a.IsProper S session start made) {frame? : Option Frame}
    {b : State} (enters : a.enter frame? = .ok b) :
  b.IsProper S session start made
  := by
  obtain ⟨stack, rfl, -⟩ := enter_eq (c := a) enters
  exact h.congr le_rfl rfl rfl rfl rfl rfl rfl

theorem State.IsProper.leave (h : a.IsProper S session start made) (frame? : Option Frame) :
  (a.leave frame?).IsProper S session start made
  := by
  cases frame? with
  | none => exact h
  | some frame => exact h.congr le_rfl rfl rfl rfl rfl rfl rfl

theorem State.IsProper.begin (h : a.IsProper S session start made) (task : Task) :
  (task.begin a).IsProper S session start made
  := by
  cases task with
  | check o => exact h.setCheck o .inProgress
  | _ => exact h

theorem State.IsProper.settle (h : a.IsProper S session start made) {task : Task}
    {x : Except Failure task.Result} (yields : ∀ r, x = .ok r → task.Yields S made r) :
  (task.settle session a x).IsProper S session start made
  := by
  cases task with
  | check o => exact h.setCheck o _
  | force t =>
    cases x with
    | error failure => exact h
    | ok v =>
      rw [Task.settle]
      split
      · exact h.keepThunk t (yields v rfl)
      · exact h
  | field o l depth name site =>
    cases x with
    | error failure => exact h
    | ok v =>
      rw [Task.settle]
      split
      · exact h.keepField _ (yields v rfl)
      · exact h
  | _ => exact h

/-- The result of a task that a proper state knows is proper. -/
theorem Task.yields_of_known (h : a.IsProper S session start made) {task : Task} {r : task.Result}
    (known : task.known? session a = some r) :
  task.Yields S made r
  := by
  cases task with
  | force t =>
    simp only [known?] at known
    split at known
    case h_1 v hv =>
      cases known
      exact h.thunk hv
    case h_2 => cases known
  | field o l depth name site =>
    simp only [known?] at known
    split at known
    case isTrue => exact h.field known
    case isFalse => cases known
  | check o => trivial
  | _ => cases known

/-- The action that carries out a task makes proper data, unless the task takes a length. -/
theorem Task.Takes.makes {task : Task} (h : task.Takes S session made)
    (proper : a.IsProper S session start made) :
  (task.action a).Makes S session
    (fun made r => (∃ ds, task = .builtin (.library .length) ds) ∨ task.Yields S made r) made
  := by
  have yields : ∀ {action : Action task.Result},
      action.Makes S session (fun made => task.Yields S made) made → action.Makes S session
        (fun made r => (∃ ds, task = .builtin (.library .length) ds) ∨ task.Yields S made r) made :=
    fun h => h.imp fun _ _ => .inr
  cases task with
  | evaluate code env => exact yields (evaluateCode_makes h.2 h.1)
  | force t =>
    apply yields
    change (computeThunk a t).Makes S session (ProperValue S) made
    rw [computeThunk]
    split
    case h_1 suspension hcell => exact run_makes (proper.thunk hcell)
    case h_2 v hcell => exact .pure (proper.thunk hcell)
    case h_3 => exact .fail _ (S.reported rfl)
  | call f arguments site => exact yields (callFunction_makes h.1 h.2 site)
  | builtin b arguments =>
    apply (applyBuiltin_makes b h).imp
    intro more r hr
    obtain rfl | hr := hr
    · exact .inl ⟨arguments, rfl⟩
    · exact .inr hr
  | check o => exact yields (checkAssertions_makes h (proper.object h).assertions)
  | readField o minDepth name site => exact yields (readField_makes h minDepth name site)
  | field o l depth name site =>
    exact yields
      (computeField_makes h.1 ((proper.object h.1).leaf_of_mem h.2) depth name site)
  | document v => exact yields (computeDocument_makes h)
  | equal x y => exact yields (computeEqual_makes h.1 h.2)
  | order operator x y => exact yields (computeOrder_makes h.1 h.2 operator)
  | program code => exact yields (computeProgram_makes h.2 h.1)
  | output code => exact yields (computeOutput_makes h.2 h.1)

theorem Task.Takes.mono {task : Task} (h : task.Takes S session made) {more : List Object}
    (hle : made <+: more) :
  task.Takes S session more
  := by
  cases task with
  | evaluate code env => exact ⟨h.1.mono hle, h.2⟩
  | force t => trivial
  | call f arguments site => exact ⟨h.1.mono hle, fun d hd => (h.2 d hd).mono hle⟩
  | builtin b arguments => exact fun d hd => (h d hd).mono hle
  | field o l depth name site => exact ⟨h.1.mono hle, h.2⟩
  | document v => exact Proper.mono h hle
  | equal x y => exact ⟨h.1.mono hle, h.2.mono hle⟩
  | order operator x y => exact ⟨h.1.mono hle, h.2.mono hle⟩
  | program code => exact ⟨h.1.mono hle, h.2⟩
  | output code => exact ⟨h.1.mono hle, h.2⟩
  | _ => exact Object.MadeIn.mono h hle

end

/-! ### Runs -/

/-- Whether everything is proper at the moments of a computation, with respect to objects that
are made in it until the last of them. An object whose check waits is under check. -/
def Progress.Upright (S : Standard) (session : Session) (start : Interner) {α : Type}
    (made last : List Object) (p : Progress α) (a : State) : Prop :=
  ∀ above task s, p.Moment session a above task s →
    ∃ more, made <+: more ∧ more <+: last ∧ s.IsProper S session start more ∧
      task.Takes S session more ∧ (∀ outer ∈ above, outer.Takes S session more) ∧
      ∀ o, .check o ∈ above → s.checks[o.id.index]? = some .inProgress

namespace Progress.Upright

variable {S : Standard} {session : Session} {start : Interner} {α : Type}
  {made more last : List Object} {a b : State}

theorem finished (r : α) :
  (Progress.finished r).Upright S session start made last a
  := by
  rintro above task s ⟨⟩

theorem step {operation : Operation} {next : operation.Result → Progress α} {r : operation.Result}
    (taken : operation.apply session a = (.ok r, b)) (hle : made <+: more)
    (h : (next r).Upright S session start more last b) :
  (Progress.step operation next).Upright S session start made last a
  := by
  intro above task s moment
  cases moment with
  | step taken' later =>
    cases taken.symm.trans taken'
    obtain ⟨m, hm, rest⟩ := h above task s later
    exact ⟨m, hle.trans hm, rest⟩

/-- A computation whose operation fails has no moments. -/
theorem stop {operation : Operation} {next : operation.Result → Progress α} {failure : Failure}
    (taken : operation.apply session a = (.error failure, b)) :
  (Progress.step operation next).Upright S session start made last a
  := by
  intro above task s moment
  cases moment with
  | step taken' later => cases taken.symm.trans taken'

/-- A computation without room for the frame of its task has no moments. -/
theorem refused {frame? : Option Frame} {task : Task} {next : task.Result → Progress α}
    {failure : Failure} (enters : a.enter frame? = .error failure) :
  (Progress.wait frame? task next).Upright S session start made last a
  := by
  intro above inner s moment
  obtain ⟨b, enters', -⟩ := moment.cases_wait
  cases enters.symm.trans enters'

/-- The moments of a computation that waits are the one at which its task is asked for, those of
the task, and those after it. -/
theorem wait {frame? : Option Frame} {task : Task} {next : task.Result → Progress α}
    (enters : a.enter frame? = .ok b) (takes : task.Takes S session made)
    (proper : b.IsProper S session start made) (hle : made <+: more) (hlast : more <+: last)
    (inside : task.known? session b = none →
      (task.action b session).Upright S session start made more (task.begin b))
    (rest : ∀ fuel r c, task.perform session fuel b = some (.ok r, c) →
      (next r).Upright S session start more last (c.leave frame?)) :
  (Progress.wait frame? task next).Upright S session start made last a
  := by
  intro above inner s moment
  obtain ⟨b', enters', h⟩ := moment.cases_wait
  cases enters.symm.trans enters'
  obtain ⟨rfl, rfl, rfl⟩ | ⟨nested, rfl, unknown, moment⟩ | ⟨fuel, r, c, ends, moment⟩ := h
  · exact ⟨made, List.prefix_refl _, hle.trans hlast, proper, takes, by simp, by simp⟩
  · obtain ⟨m, hm, hm', hs, htask, habove, hchecks⟩ := inside unknown nested inner s moment
    refine ⟨m, hm, hm'.trans hlast, hs, htask, ?_, ?_⟩
    · intro t ht
      obtain ht | ht := List.mem_append.mp ht
      · exact habove t ht
      · cases List.mem_singleton.mp ht
        exact takes.mono hm
    · intro o ho
      obtain ho | ho := List.mem_append.mp ho
      · exact hchecks o ho
      · cases List.mem_singleton.mp ho
        apply moment.inProgress
        rw [Task.begin, State.getElem?_setCheck, if_pos rfl,
          Array.getElem?_eq_getElem (proper.index_lt takes)]
        rfl
  · obtain ⟨m, hm, hm', h⟩ := rest fuel r c ends above inner s moment
    exact ⟨m, hle.trans hm, hm', h⟩

end Progress.Upright

section

variable {S : Standard} {session : Session} {start : Interner} {imports : ImportCache Deferred}
  {made : List Object} {a b : State} {fuel : Nat}

/-- What has to be shown of tasks for computations to come to proper outcomes. -/
def Task.Performs (S : Standard) (session : Session) (start : Interner)
    (imports : ImportCache Deferred) (fuel : Nat) : Prop :=
  ∀ {task : Task} {made : List Object} {a b : State} {x : Except Failure task.Result},
    task.Takes S session made → a.IsProper S session start made → task.Modest S session a →
    task.perform session fuel a = some (x, b) → b.imports.Extends imports →
    ∃ last, made <+: last ∧ b.IsProper S session start last ∧
      (∀ r, x = .ok r → task.Yields S last r) ∧
      (task.known? session a = none →
        (task.action a session).Upright S session start made last (task.begin a))

theorem Progress.Makes.run_of_performs (supplies : session.Supplies S start imports)
    (performs : Task.Performs S session start imports fuel) {α : Type}
    {R : List Object → α → Prop} {p : Progress α} (h : p.Makes S session R made)
    (proper : a.IsProper S session start made) (modest : p.Modest S session a)
    {x : Except Failure α}
    (run : p.resolve session (Task.perform session fuel) a = some (x, b))
    (within : b.imports.Extends imports) :
  ∃ last, made <+: last ∧ b.IsProper S session start last ∧ (∀ r, x = .ok r → R last r) ∧
    p.Upright S session start made last a
  := by
  induction h generalizing a with
  | @finished made r result =>
    cases run
    refine ⟨made, List.prefix_refl _, proper, ?_, .finished r⟩
    rintro r ⟨⟩
    exact result
  | @step made operation next takes goes ih =>
    rw [resolve] at run
    split at run
    case h_1 r c taken =>
      have earlier := (Progress.grows Task.grows run).imports.trans within
      obtain ⟨more, hle, proper', yields⟩ :=
        Operation.proper proper takes supplies (by rw [taken]; exact earlier)
      rw [taken] at proper' yields
      obtain ⟨last, hlast, hb, hR, upright⟩ :=
        ih more hle r (yields r rfl) proper' (modest.step taken) run
      exact ⟨last, hle.trans hlast, hb, hR, .step taken hle upright⟩
    case h_2 failure c taken =>
      cases run
      obtain ⟨more, hle, proper', -⟩ :=
        Operation.proper proper takes supplies (by rw [taken]; exact within)
      rw [taken] at proper'
      exact ⟨more, hle, proper', by rintro r ⟨⟩, .stop taken⟩
  | @wait made frame? task next takes goes ih =>
    rw [resolve] at run
    split at run
    case h_1 failure enters =>
      cases run
      exact ⟨made, List.prefix_refl _, proper, by rintro r ⟨⟩, .refused enters⟩
    case h_2 inside enters =>
      have proper₀ := proper.enter enters
      split at run
      case h_1 => cases run
      case h_2 r c ends =>
        have later := (Progress.grows Task.grows run).imports.trans within
        rw [State.leave_imports] at later
        obtain ⟨more, hle, hc, yields, upright⟩ :=
          performs takes proper₀ (modest.task enters) ends later
        obtain ⟨last, hlast, hb, hR, rest⟩ := ih more hle r (yields r rfl) (hc.leave frame?)
          (modest.later enters ends) run
        refine ⟨last, hle.trans hlast, hb, hR, .wait enters takes proper₀ hle hlast upright ?_⟩
        intro fuel' r' c' ends'
        cases Task.perform_unique ends ends'
        exact rest
      case h_3 failure c ends =>
        cases run
        rw [State.leave_imports] at within
        obtain ⟨more, hle, hc, -, upright⟩ :=
          performs takes proper₀ (modest.task enters) ends within
        refine ⟨more, hle, hc.leave frame?, by rintro r ⟨⟩,
          .wait enters takes proper₀ hle (List.prefix_refl _) upright ?_⟩
        intro fuel' r' c' ends'
        cases Task.perform_unique ends ends'

/-- A task on a proper state comes to a proper outcome, by way of proper moments. -/
theorem Task.performs (supplies : session.Supplies S start imports) (fuel : Nat) :
  Task.Performs S session start imports fuel
  := by
  induction fuel with
  | zero =>
    intro task made a b x takes proper modest run
    cases run
  | succ fuel ih =>
    intro task made a b x takes proper modest run within
    rw [perform] at run
    split at run
    case h_1 r known =>
      cases run
      refine ⟨made, List.prefix_refl _, proper, ?_, fun unknown => ?_⟩
      · rintro r ⟨⟩
        exact Task.yields_of_known proper known
      · cases known.symm.trans unknown
    case h_2 unknown =>
      split at run
      case h_1 => cases run
      case h_2 outcome c resolved =>
        cases run
        rw [settle_imports] at within
        obtain ⟨last, hle, hc, yields, upright⟩ := (takes.makes proper).run_of_performs supplies ih
          (proper.begin task) (modest.action unknown) resolved within
        have yields : ∀ r, x = .ok r → task.Yields S last r := by
          rintro r rfl
          obtain ⟨ds, rfl⟩ | yields := yields r rfl
          · obtain ⟨size, measures, rfl⟩ := Task.measures_of_length resolved
            exact .number (S.measured (modest.size measures))
          · exact yields
        exact ⟨last, hle, hc.settle yields, yields, fun _ => upright⟩

/-- What makes proper data comes to a proper outcome, by way of proper moments. -/
theorem Action.Makes.run_proper {α : Type} {R : List Object → α → Prop} {x : Action α}
    (h : x.Makes S session R made) (supplies : session.Supplies S start imports)
    (proper : a.IsProper S session start made) (modest : (x session).Modest S session a)
    {outcome : Except Failure α} (run : x.run session fuel a = some (outcome, b))
    (within : b.imports.Extends imports) :
  ∃ last, made <+: last ∧ b.IsProper S session start last ∧ (∀ r, outcome = .ok r → R last r) ∧
    (x session).Upright S session start made last a
  := by
  obtain ⟨fuel, run⟩ := Action.run_iff.mp ⟨fuel, run⟩
  exact Progress.Makes.run_of_performs supplies (Task.performs supplies fuel) h proper modest run
    within

/-- What makes genuine data comes to a genuine outcome, by way of genuine moments. -/
theorem Action.Makes.run {α : Type} {R : List Object → α → Prop} {x : Action α}
    (h : x.Makes .any session R made) (genuine : a.IsGenuine session made)
    {outcome : Except Failure α} (run : x.run session fuel a = some (outcome, b)) :
  ∃ last, made <+: last ∧ b.IsGenuine session last ∧ (∀ r, outcome = .ok r → R last r) ∧
    (x session).Upright .any session .onlyEmpty made last a
  := by
  obtain ⟨last, hle, hb, rest⟩ := h.run_proper (Standard.any_lax.supplies session b.imports)
    (State.isProper_any.mpr genuine) (.of_lax Standard.any_lax _ _) run (.refl _)
  exact ⟨last, hle, State.isProper_any.mp hb, rest⟩

end

section

variable {S : Standard} {session : Session} {start : Interner} {imports : ImportCache Deferred}
  (supplies : session.Supplies S start imports) {α : Type} {R : List Object → α → Prop}
  {p : Progress α} {made : List Object} {a b s : State}

include supplies

/-- After an operation, what makes proper data goes on to do so. -/
theorem Progress.Makes.after_step {operation : Operation} {next : operation.Result → Progress α}
    (h : (Progress.step operation next).Makes S session R made)
    (proper : a.IsProper S session start made) {r : operation.Result}
    (taken : operation.apply session a = (.ok r, b)) (within : b.imports.Extends imports) :
  ∃ more, made <+: more ∧ b.IsProper S session start more ∧ (next r).Makes S session R more
  := by
  cases h with
  | step takes goes =>
    obtain ⟨more, hle, proper', yields⟩ :=
      Operation.proper proper takes supplies (by rw [taken]; exact within)
    rw [taken] at proper' yields
    exact ⟨more, hle, proper', goes more hle r (yields r rfl)⟩

/-- After a task, what makes proper data goes on to do so. -/
theorem Progress.Makes.after_task {frame? : Option Frame} {task : Task}
    {next : task.Result → Progress α}
    (h : (Progress.wait frame? task next).Makes S session R made)
    (proper : a.IsProper S session start made)
    (modest : (Progress.wait frame? task next).Modest S session a)
    (enters : a.enter frame? = .ok b) {fuel : Nat} {r : task.Result} {c : State}
    (ends : task.perform session fuel b = some (.ok r, c))
    (within : (c.leave frame?).imports.Extends imports) :
  ∃ more, made <+: more ∧ (c.leave frame?).IsProper S session start more ∧
    (next r).Makes S session R more
  := by
  cases h with
  | wait takes goes =>
    rw [State.leave_imports] at within
    obtain ⟨more, hle, hc, yields, -⟩ :=
      Task.performs supplies _ takes (proper.enter enters) (modest.task enters) ends within
    exact ⟨more, hle, hc.leave _, goes more hle r (yields r rfl)⟩

/-- At a moment of what makes proper data, the state and the tasks that are going on are proper,
whether or not the computation comes to an end. -/
theorem Progress.Moment.proper {above : List Task} {task : Task}
    (moment : p.Moment session a above task s) (makes : p.Makes S session R made)
    (proper : a.IsProper S session start made) (modest : p.Modest S session a)
    (within : s.imports.Extends imports) :
  ∃ more, made <+: more ∧ s.IsProper S session start more ∧ task.Takes S session more ∧
    ∀ outer ∈ above, outer.Takes S session more
  := by
  induction moment generalizing made with
  | step taken later ih =>
    obtain ⟨more, hle, hb, makes⟩ :=
      makes.after_step supplies proper taken (later.imports.trans within)
    obtain ⟨last, hlast, rest⟩ := ih makes hb (modest.step taken) within
    exact ⟨last, hle.trans hlast, rest⟩
  | asked enters =>
    cases makes with
    | wait takes => exact ⟨made, List.prefix_refl _, proper.enter enters, takes, by simp⟩
  | inside enters unknown _ ih =>
    cases makes with
    | wait takes =>
      have inside := proper.enter enters
      obtain ⟨more, hle, hs, htask, habove⟩ := ih (takes.makes inside) (inside.begin _)
        ((modest.task enters).action unknown) within
      refine ⟨more, hle, hs, htask, ?_⟩
      intro outer houter
      obtain houter | houter := List.mem_append.mp houter
      · exact habove outer houter
      · cases List.mem_singleton.mp houter
        exact takes.mono hle
  | later enters ends rest ih =>
    obtain ⟨more, hle, hc, makes⟩ :=
      makes.after_task supplies proper modest enters ends (rest.imports.trans within)
    obtain ⟨last, hlast, rest⟩ := ih makes hc (modest.later enters ends) within
    exact ⟨last, hle.trans hlast, rest⟩

/-- Every state that what makes proper data visits is proper, whether or not the computation
comes to an end. -/
theorem Progress.Visits.proper (visits : p.Visits session a s) (makes : p.Makes S session R made)
    (proper : a.IsProper S session start made) (modest : p.Modest S session a)
    (within : s.imports.Extends imports) :
  ∃ more, made <+: more ∧ s.IsProper S session start more
  := by
  induction visits generalizing made with
  | start => exact ⟨made, List.prefix_refl _, proper⟩
  | step taken later ih =>
    obtain ⟨more, hle, hb, makes⟩ :=
      makes.after_step supplies proper taken (later.imports.trans within)
    obtain ⟨last, hlast, hs⟩ := ih makes hb (modest.step taken) within
    exact ⟨last, hle.trans hlast, hs⟩
  | stop taken =>
    cases makes with
    | step takes =>
      obtain ⟨more, hle, proper', -⟩ :=
        Operation.proper proper takes supplies (by rw [taken]; exact within)
      rw [taken] at proper'
      exact ⟨more, hle, proper'⟩
  | asked enters => exact ⟨made, List.prefix_refl _, proper.enter enters⟩
  | inside enters unknown _ ih =>
    cases makes with
    | wait takes =>
      have inside := proper.enter enters
      exact ih (takes.makes inside) (inside.begin _) ((modest.task enters).action unknown) within
  | ended enters ends =>
    cases makes with
    | wait takes =>
      obtain ⟨more, hle, hc, -⟩ :=
        Task.performs supplies _ takes (proper.enter enters) (modest.task enters) ends within
      exact ⟨more, hle, hc⟩
  | left enters ends =>
    cases makes with
    | wait takes =>
      rw [State.leave_imports] at within
      obtain ⟨more, hle, hc, -⟩ :=
        Task.performs supplies _ takes (proper.enter enters) (modest.task enters) ends within
      exact ⟨more, hle, hc.leave _⟩
  | later enters ends rest ih =>
    obtain ⟨more, hle, hc, makes⟩ :=
      makes.after_task supplies proper modest enters ends (rest.imports.trans within)
    obtain ⟨last, hlast, hs⟩ := ih makes hc (modest.later enters ends) within
    exact ⟨last, hle.trans hlast, hs⟩

end

/-- At a moment of what makes genuine data, the state and the tasks that are going on are genuine,
whether or not the computation comes to an end. -/
theorem Progress.Moment.genuine {session : Session} {α : Type} {R : List Object → α → Prop}
    {p : Progress α} {made : List Object} {a s : State} {above : List Task} {task : Task}
    (moment : p.Moment session a above task s) (makes : p.Makes .any session R made)
    (genuine : a.IsGenuine session made) :
  ∃ more, made <+: more ∧ s.IsGenuine session more ∧ task.Takes .any session more ∧
    ∀ outer ∈ above, outer.Takes .any session more
  := by
  obtain ⟨more, hle, hs, rest⟩ := moment.proper (Standard.any_lax.supplies session s.imports)
    makes (State.isProper_any.mpr genuine) (.of_lax Standard.any_lax _ _) (.refl _)
  exact ⟨more, hle, State.isProper_any.mp hs, rest⟩

/-! ### Sessions -/

/-- Whether a state of a session and some values are genuine, with respect to the objects that
have been made. -/
def Session.Vouches (session : Session) (a : State) (values : List Value) : Prop :=
  ∃ made, a.IsGenuine session made ∧ ∀ v ∈ values, Genuine made (.value v)

/-- The beginning of a session is proper: only the library has been made. -/
theorem Session.Prepared.isProper {session : Session} {names start : Interner}
    (prepared : session.Prepared names) {S : Standard}
    (hfields : ∀ l ∈ session.library.literals, S.fields (l.fields.map Prod.fst))
    (hle : start ≤ names) (limit : Nat) :
  (State.new names limit).IsProper S session start [session.library]
  := by
  have hid := prepared.library_id
  have madeIn : session.library.MadeIn [session.library] := by
    rw [Object.MadeIn, hid]
    rfl
  refine ⟨hle, rfl, ?_, madeIn, ?_, ?_, ?_, ?_, ?_⟩
  · intro i o ho
    have hi := (List.getElem?_eq_some_iff.mp ho).choose
    rw [List.length_singleton, Nat.lt_one_iff] at hi
    subst hi
    cases ho
    refine ⟨by rw [hid], ?_⟩
    obtain ⟨fields, hlibrary, builtins⟩ := prepared.library
    rw [hlibrary] at hfields ⊢
    refine .leaf ⟨hfields _ List.mem_cons_self, .empty, ?_, by simp⟩
    intro field hfield
    obtain ⟨-, f, hf⟩ := builtins field hfield
    rw [hf]
    exact .function (.builtin _)
  · intro i cell hcell
    simp [State.new] at hcell
  · intro i d hd
    simp [State.new, Slots.empty] at hd
  · intro key v hv
    simp [State.new] at hv
  · intro directory path d hd
    simp [State.new, ImportCache.empty, ImportCache.code?] at hd
  · intro name d hd
    simp [State.new] at hd

/-- The beginning of a session is genuine. -/
theorem Session.Prepared.isGenuine {session : Session} {names : Interner}
    (prepared : session.Prepared names) (limit : Nat) :
  (State.new names limit).IsGenuine session [session.library]
  := State.isProper_any.mp
    (prepared.isProper (fun _ _ => trivial) (Interner.onlyEmpty_le names) limit)

/-- What can be asked of an interpreter that has given genuine values makes genuine data. -/
theorem Session.Asks.makes {session : Session} {made : List Object} {a : State}
    {values : List Value} (genuine : a.IsGenuine session made)
    (hvalues : ∀ v ∈ values, Genuine made (.value v)) {α : Type} {action : Action α}
    {given : α → List Value} (h : Session.Asks a values action given) :
  action.Makes .any session (fun made r => ∀ v ∈ given r, Genuine made (.value v)) made
  := by
  have result : ∀ {action : Action Value}, action.Makes .any session (ProperValue .any) made →
      action.Makes .any session (fun made r => ∀ v ∈ [r], Genuine made (.value v)) made :=
    fun h => h.imp fun _ _ hr _ hv => List.mem_singleton.mp hv ▸ proper_any.mp hr
  have nothing : ∀ {action : Action String}, action.Makes .any session Anything made →
      action.Makes .any session (fun made _ => ∀ v ∈ [], Genuine made (.value v)) made :=
    fun h => h.imp (by simp)
  have hvalues := fun v hv => proper_any.mpr (hvalues v hv)
  cases h with
  | value named => exact result (.inFrame _ (.program _) ⟨genuine.library, trivial⟩)
  | output named => exact nothing (.inFrame _ (.output _) ⟨genuine.library, trivial⟩)
  | @element elements mem element inside =>
    cases hvalues _ mem with
    | array _ properInside => exact result (force_makes (properInside element inside))
  | @field o mem name gives site =>
    cases hvalues _ mem with
    | object object => exact result (.request (.readField o 0 name site) object)
  | @call f mem arguments ready site =>
    cases hvalues _ mem with
    | function function =>
      refine result (.request (.call f _ site) ⟨function, ?_⟩)
      intro d hd
      obtain ⟨v, hv, rfl⟩ := List.mem_map.mp hd
      exact .ready (hvalues v (ready v hv))
  | manifest mem layout => exact nothing (manifest_makes layout (hvalues _ mem))

/-- Wherever a prepared session comes to, what it has given is genuine. -/
theorem Session.Comes.vouches {session : Session} {names : Interner} {limit : Nat} {a : State}
    {values : List Value} (prepared : session.Prepared names)
    (h : session.Comes (.new names limit) a values) :
  session.Vouches a values
  := by
  induction h with
  | start => exact ⟨_, prepared.isGenuine limit, by simp⟩
  | names before le ih =>
    obtain ⟨made, genuine, hvalues⟩ := ih
    exact ⟨made, genuine.congr rfl rfl rfl rfl rfl rfl, hvalues⟩
  | given before asks run ih =>
    obtain ⟨made, genuine, hvalues⟩ := ih
    obtain ⟨fuel, run⟩ := run
    obtain ⟨last, hle, hb, hgiven, -⟩ := (asks.makes genuine hvalues).run genuine run
    refine ⟨last, hb, ?_⟩
    intro v hv
    obtain hv | hv := List.mem_append.mp hv
    · exact hgiven _ rfl v hv
    · exact (hvalues v hv).mono hle
  | failed before asks run ih =>
    obtain ⟨made, genuine, hvalues⟩ := ih
    obtain ⟨last, hle, hb, -, -⟩ := (asks.makes genuine hvalues).run genuine run
    exact ⟨last, hb, fun v hv => (hvalues v hv).mono hle⟩

end Jsonnet
