import Jsonnet.Proofs.Evaluations
import Jsonnet.Proofs.Origins
import Jsonnet.Proofs.Outset

/-!
# Compilations of imported files

An imported file is compiled when it is first imported, and what comes of that is kept under
the directory of the importing file and the path that is written there. So no directory and
path are compiled twice, whether or not the front end accepts the file. Nothing is kept under
the location at which the importer has found the file: a file that is found from two
directories, or by two paths, is compiled for each of them.
-/

namespace Jsonnet

/-! ### Operations of a run -/

/-- The operations that a computation takes, each with the state that it is taken in, from those
of the tasks that it asks for. -/
def Progress.operations {α : Type} (session : Session)
    (carryOut : (task : Task) → State → Option (Outcome task.Result))
    (operationsOf : Task → State → List (Operation × State)) :
    Progress α → State → List (Operation × State)
  | .finished _, _ => []
  | .step operation next, state =>
    (operation, state) ::
      match operation.apply session state with
      | (.ok result, state) => (next result).operations session carryOut operationsOf state
      | (.error _, _) => []
  | .wait frame? task next, state =>
    match state.enter frame? with
    | .error _ => []
    | .ok state =>
      operationsOf task state ++
        match carryOut task state with
        | some (.ok result, state) =>
          (next result).operations session carryOut operationsOf (state.leave frame?)
        | _ => []

/-- The operations that are taken while a task is carried out with tasks nested `fuel` deep at
most, up to the first task that is nested deeper. -/
def Task.operations (session : Session) : Nat → Task → State → List (Operation × State)
  | 0, _, _ => []
  | fuel + 1, task, state =>
    match task.known? session state with
    | some _ => []
    | none =>
      (task.action state session).operations session (Task.perform session fuel)
        (Task.operations session fuel) (task.begin state)

/-- The operations that an action takes with tasks nested `fuel` deep at most. -/
def Action.operations {α : Type} (session : Session) (action : Action α) (fuel : Nat)
    (state : State) : List (Operation × State) :=
  (action session).operations session (Task.perform session fuel) (Task.operations session fuel)
    state

/-- The states and operations that lead from one state to another: the host carries out actions,
and interns names in between. -/
inductive Session.Operates (session : Session) (a : State) :
    List (Operation × State) → State → Prop where
  | start : Operates session a [] a
  | action {taken : List (Operation × State)} {b c : State} {α : Type} (action : Action α)
      (fuel : Nat) {outcome : Except Failure α} (before : Operates session a taken b)
      (run : (action session).resolve session (Task.perform session fuel) b = some (outcome, c)) :
    Operates session a (taken ++ action.operations session fuel b) c
  | names {taken : List (Operation × State)} {b : State} (names : Interner)
      (before : Operates session a taken b) : Operates session a taken { b with names }

/-! ### Compilations -/

/-- A compilation of an imported file. -/
structure Compilation where
  /-- The directory of the importing file. -/
  directory : String
  path : String
  /-- The location at which the importer has found the file. -/
  foundAt : String
  deriving DecidableEq

/-- What the result of a compilation is kept under. -/
def Compilation.key (c : Compilation) : String × String := (c.directory, c.path)

/-- Whether the result of a compilation is kept. -/
def Compilation.Kept (c : Compilation) (state : State) : Prop :=
  (state.imports.code? c.directory c.path).isSome

/-- The compilation that an operation begins and the front end brings to an end, with a program or
with an error. -/
def Operation.compilation? (session : Session) (state : State) : Operation → Option Compilation
  | .imported directory path _ =>
    let text := state.names.lookup path
    match state.imports.code? directory text,
      (state.imports.resolve session.importer directory text).1 with
    | none, .ok file =>
      match (session.frontEnd state.names file.foundAt file.content).1 with
      | .broken _ => none
      | _ => some ⟨directory, text, file.foundAt⟩
    | _, _ => none
  | _ => none

/-- The compilations among some operations. -/
def compilations (session : Session) (taken : List (Operation × State)) : List Compilation :=
  taken.filterMap fun step => step.1.compilation? session step.2

/-- How the compilations of a run go with the state that it begins in: none of their results is
kept there, they are for different directories or paths, and each is of the file that the importer
finds. -/
structure Compilation.Fit (session : Session) (a : State) (compilations : List Compilation) :
    Prop where
  fresh : ∀ c ∈ compilations, ¬ c.Kept a
  distinct : (compilations.map key).Nodup
  located : ∀ c ∈ compilations,
    ∃ file, session.importer c.directory c.path = .ok file ∧ file.foundAt = c.foundAt

section

variable {session : Session} {a b : State}

/-- What is kept stays kept. -/
theorem Compilation.Kept.mono {c : Compilation} (h : c.Kept a)
    (extends' : a.imports.Extends b.imports) :
  c.Kept b
  := by
  obtain ⟨code, hcode⟩ := Option.isSome_iff_exists.mp h
  obtain ⟨entry, hentry, hcode⟩ := Option.bind_eq_some_iff.mp hcode
  obtain ⟨entry', hentry', -, hkept⟩ := extends' _ entry hentry
  rw [Kept, ImportCache.code?, hentry', Option.bind_some, hkept _ hcode]
  rfl

/-- A result that is kept depends on its key only. -/
theorem Compilation.Kept.congr {c c' : Compilation} (h : c.Kept a) (hkey : c.key = c'.key) :
  c'.Kept a
  := by
  obtain ⟨hdirectory, hpath⟩ := Prod.mk.inj hkey
  rwa [Kept, ← hdirectory, ← hpath]

namespace Compilation.Fit

variable {cs cs' : List Compilation}

theorem nil (session : Session) (a : State) :
  Fit session a []
  := ⟨by simp, List.nodup_nil, by simp⟩

/-- Compilations of a run that goes on where the results of the first part are kept. -/
theorem append (h : Fit session a cs) (h' : Fit session b cs')
    (extends' : a.imports.Extends b.imports) (kept : ∀ c ∈ cs, c.Kept b) :
  Fit session a (cs ++ cs')
  where
  fresh c hc hkept := by
    obtain hc | hc := List.mem_append.mp hc
    · exact h.fresh c hc hkept
    · exact h'.fresh c hc (hkept.mono extends')
  distinct := by
    rw [List.map_append, List.nodup_append]
    refine ⟨h.distinct, h'.distinct, ?_⟩
    rintro _ hkey _ hkey' rfl
    obtain ⟨c, hc, rfl⟩ := List.mem_map.mp hkey
    obtain ⟨c', hc', heq⟩ := List.mem_map.mp hkey'
    exact h'.fresh c' hc' ((kept c hc).congr heq.symm)
  located c hc := by
    obtain hc | hc := List.mem_append.mp hc
    · exact h.located c hc
    · exact h'.located c hc

end Compilation.Fit

/-- What is compiled has not been kept, and its result is kept. -/
theorem Operation.compilation_fit {operation : Operation} {c : Compilation}
    (h : operation.compilation? session a = some c) :
  ¬ c.Kept a ∧ c.Kept (operation.apply session a).2
  := by
  cases operation with
  | imported directory path site =>
    simp only [compilation?] at h
    split at h
    case h_2 => cases h
    case h_1 file missing answered =>
      rcases hresolve : a.imports.resolve session.importer directory (a.names.lookup path)
        with ⟨answer, imports⟩
      have set : ∀ code, (ImportCache.setCode (a.imports.resolve session.importer directory
          (a.names.lookup path)).2 directory (a.names.lookup path) code).code? directory
            (a.names.lookup path) = some code := by
        intro code
        obtain ⟨entry, hentry, -, hcode⟩ := a.imports.entry_setCode_resolve session.importer
          directory (a.names.lookup path) code
        rw [ImportCache.code?, hentry]
        exact hcode
      rw [hresolve] at answered set
      cases answered
      have key : c.key = (directory, a.names.lookup path) := by
        split at h
        case h_1 => cases h
        case h_2 => cases h; rfl
      have unkept : ¬ c.Kept a := by
        obtain ⟨hdirectory, hpath⟩ := Prod.mk.inj key
        rw [Compilation.Kept, hdirectory, hpath, missing]
        simp
      refine ⟨unkept, ?_⟩
      obtain ⟨hdirectory, hpath⟩ := Prod.mk.inj key
      rw [Compilation.Kept, hdirectory, hpath]
      rcases hcompile : session.frontEnd a.names file.foundAt file.content with ⟨compiled, names⟩
      rw [hcompile] at h
      cases compiled with
      | broken message => cases h
      | _ =>
        simp only [apply, State.imported, missing, State.importText, hresolve, State.compile,
          hcompile, set, Option.isSome_some]
  | _ => cases h

/-- What is compiled stands at the location at which the importer finds it. -/
theorem Operation.located_of_compilation {operation : Operation} {c : Compilation}
    (answers : a.imports.Answers session.importer)
    (h : operation.compilation? session a = some c) :
  ∃ file, session.importer c.directory c.path = .ok file ∧ file.foundAt = c.foundAt
  := by
  cases operation with
  | imported directory path site =>
    simp only [compilation?, answers.resolve_eq] at h
    split at h
    case h_2 => cases h
    case h_1 file missing answered =>
      split at h
      case h_1 => cases h
      case h_2 =>
        cases h
        exact ⟨file, answered, rfl⟩
  | _ => cases h

end

/-! ### Answers of the importer -/

section

variable {session : Session} {a b : State}

/-- A text that is imported has the answer of the importer. -/
theorem ImportCache.Answers.importText (h : a.imports.Answers session.importer)
    (directory path : String) (site : Location) :
  (a.importText session.importer directory path site).2.imports.Answers session.importer
  := by
  have hresolved := h.resolve directory path
  rcases hresolve : a.imports.resolve session.importer directory path with ⟨answer, imports⟩
  rw [hresolve] at hresolved
  simp only [State.importText, hresolve]
  cases answer <;> exact hresolved

/-- What is given from outside is no import. -/
theorem State.given_imports (session : Session) (a : State) (external : External) (kind : String)
    (name : Name) (context : FrameContext) :
  (a.given session external kind name context).2.imports = a.imports
  := by
  cases external with
  | text value => rfl
  | code source => apply State.Grows.compile_imports

/-- An operation keeps the answers of the importer only. -/
theorem Operation.answers (operation : Operation) (h : a.imports.Answers session.importer) :
  (operation.apply session a).2.imports.Answers session.importer
  := by
  cases operation with
  | importText directory path site => exact h.importText directory path site
  | imported directory path site =>
    rw [apply, State.imported]
    split
    · exact h
    · have answered := h.importText directory (a.names.lookup path) site
      rcases htext : a.importText session.importer directory (a.names.lookup path) site
        with ⟨outcome, b⟩
      rw [htext] at answered
      cases outcome with
      | error failure => exact answered
      | ok file =>
        have compiled := State.Grows.compile_imports session b (.importing path) file.foundAt
          file.content
        simp only
        rcases hcompile : b.compile session (.importing path) file.foundAt file.content
          with ⟨outcome, c⟩
        rw [hcompile] at compiled
        cases outcome with
        | error failure => rwa [← compiled] at answered
        | ok code =>
          rw [← compiled] at answered
          exact answered.setCode directory _ code
  | external name external =>
    have given := a.given_imports session external "extvar" name (.external name)
    rw [apply, State.external]
    split
    · exact h
    · rcases hgiven : a.given session external "extvar" name (.external name) with ⟨outcome, b⟩
      rw [hgiven] at given
      cases outcome <;> rwa [← given] at h
  | argument name external =>
    rw [apply, State.given_imports]
    exact h
  | intern s =>
    rw [apply]
    split <;> exact h
  | slot id =>
    rw [apply]
    split <;> exact h
  | _ => exact h

/-- A computation keeps the answers of the importer only, if the tasks that it asks for do. -/
theorem Progress.answers {α : Type} {progress : Progress α}
    {carryOut : (task : Task) → State → Option (Outcome task.Result)}
    (hcarry : ∀ {task a outcome b}, carryOut task a = some (outcome, b) →
      a.imports.Answers session.importer → b.imports.Answers session.importer)
    (h : a.imports.Answers session.importer) {outcome : Except Failure α}
    (run : progress.resolve session carryOut a = some (outcome, b)) :
  b.imports.Answers session.importer
  := by
  induction progress generalizing a with
  | finished result =>
    cases run
    exact h
  | step operation next ih =>
    have taken := operation.answers h
    rw [resolve] at run
    split at run
    case h_1 result mid happly =>
      rw [happly] at taken
      exact ih result taken run
    case h_2 failure mid happly =>
      rw [happly] at taken
      cases run
      exact taken
  | wait frame? task next ih =>
    rw [resolve] at run
    split at run
    case h_1 =>
      cases run
      exact h
    case h_2 inside henter =>
      obtain ⟨stack, rfl, -⟩ := State.enter_eq (c := a) henter
      split at run
      case h_1 => cases run
      case h_2 result mid hmid =>
        refine ih result ?_ run
        rw [State.leave_imports]
        exact hcarry hmid h
      case h_3 failure mid hmid =>
        cases run
        rw [State.leave_imports]
        exact hcarry hmid h

/-- A task keeps the answers of the importer only. -/
theorem Task.answers {fuel : Nat} {task : Task} {outcome : Except Failure task.Result}
    (run : task.perform session fuel a = some (outcome, b))
    (h : a.imports.Answers session.importer) :
  b.imports.Answers session.importer
  := by
  induction fuel generalizing task a b with
  | zero => cases run
  | succ fuel ih =>
    rw [perform] at run
    split at run
    case h_1 result known =>
      cases run
      exact h
    case h_2 unknown =>
      split at run
      case h_1 => cases run
      case h_2 outcome mid hresolve =>
        cases run
        rw [settle_imports]
        refine Progress.answers (fun run h => ih run h) ?_ hresolve
        rwa [begin_imports]

end

/-! ### The compilations of runs -/

section

variable {session : Session} {a b : State}

theorem compilations_append (session : Session) (taken taken' : List (Operation × State)) :
  compilations session (taken ++ taken') = compilations session taken ++ compilations session taken'
  := List.filterMap_append

/-- The compilations of one operation. -/
theorem Operation.compilations_fit (operation : Operation)
    (answers : a.imports.Answers session.importer) :
  Compilation.Fit session a (compilations session [(operation, a)]) ∧
    ∀ c ∈ compilations session [(operation, a)], c.Kept (operation.apply session a).2
  := by
  have single : compilations session [(operation, a)]
      = (operation.compilation? session a).toList := by
    rw [compilations, List.filterMap_cons]
    cases operation.compilation? session a <;> rfl
  rw [single]
  cases hc : operation.compilation? session a with
  | none => exact ⟨.nil session a, by simp⟩
  | some c =>
    obtain ⟨fresh, kept⟩ := operation.compilation_fit hc
    refine ⟨⟨?_, List.nodup_singleton _, ?_⟩, ?_⟩
    · exact fun c' hc' => List.mem_singleton.mp hc' ▸ fresh
    · exact fun c' hc' => List.mem_singleton.mp hc' ▸ operation.located_of_compilation answers hc
    · exact fun c' hc' => List.mem_singleton.mp hc' ▸ kept

/-- The compilations of a computation go with its states if those of tasks do. The computation
need not come to an end; where it does, what it has compiled is kept. -/
theorem Progress.compilations_fit {α : Type} (progress : Progress α)
    {carryOut : (task : Task) → State → Option (Outcome task.Result)}
    {operationsOf : Task → State → List (Operation × State)}
    (hgrows : ∀ {task a outcome b}, carryOut task a = some (outcome, b) → a.Grows session b)
    (hanswers : ∀ {task a outcome b}, carryOut task a = some (outcome, b) →
      a.imports.Answers session.importer → b.imports.Answers session.importer)
    (hfit : ∀ task {a}, a.imports.Answers session.importer →
      Compilation.Fit session a (compilations session (operationsOf task a)) ∧
        ∀ {outcome b}, carryOut task a = some (outcome, b) →
          ∀ c ∈ compilations session (operationsOf task a), c.Kept b)
    (answers : a.imports.Answers session.importer) :
  Compilation.Fit session a
      (compilations session (progress.operations session carryOut operationsOf a)) ∧
    ∀ {outcome b}, progress.resolve session carryOut a = some (outcome, b) →
      ∀ c ∈ compilations session (progress.operations session carryOut operationsOf a), c.Kept b
  := by
  induction progress generalizing a with
  | finished result => exact ⟨.nil session a, by simp [operations, compilations]⟩
  | step operation next ih =>
    obtain ⟨first, kept⟩ := operation.compilations_fit answers
    have grows := operation.grows session a
    have answered := operation.answers answers
    rw [operations, resolve, ← List.singleton_append]
    rcases happly : operation.apply session a with ⟨failure | result, mid⟩
    · simp only [happly] at kept
      simp only [List.append_nil]
      refine ⟨first, ?_⟩
      intro outcome b run
      cases run
      exact kept
    · simp only [happly] at kept grows answered
      obtain ⟨rest, keptRest⟩ := ih result answered
      rw [compilations_append]
      refine ⟨first.append rest grows.imports kept, ?_⟩
      intro outcome b run c hc
      obtain hc | hc := List.mem_append.mp hc
      · exact (kept c hc).mono (Progress.grows hgrows run).imports
      · exact keptRest run c hc
  | wait frame? task next ih =>
    rw [operations, resolve]
    rcases henter : a.enter frame? with failure | inside
    · exact ⟨.nil session a, by simp [compilations]⟩
    · simp only
      obtain ⟨stack, rfl, -⟩ := State.enter_eq (c := a) henter
      obtain ⟨inner, kept⟩ := hfit task (a := { a with stack }) answers
      have first : Compilation.Fit session a
          (compilations session (operationsOf task { a with stack })) := { inner with }
      have left : ∀ {c : Compilation} {s : State}, c.Kept s → c.Kept (s.leave frame?) := by
        intro c s h
        rwa [Compilation.Kept, State.leave_imports]
      rw [compilations_append]
      rcases hmid : carryOut task { a with stack } with _ | ⟨failure | result, mid⟩
      · rw [show compilations session [] = [] from rfl, List.append_nil]
        refine ⟨first, ?_⟩
        intro outcome b run
        cases run
      · rw [show compilations session [] = [] from rfl, List.append_nil]
        refine ⟨first, ?_⟩
        intro outcome b run c hc
        cases run
        exact left (kept hmid c hc)
      · have answered : (mid.leave frame?).imports.Answers session.importer := by
          rw [State.leave_imports]
          exact hanswers hmid answers
        obtain ⟨rest, keptRest⟩ := ih result answered
        have keptFirst := fun c hc => left (kept hmid c hc)
        refine ⟨first.append rest ((hgrows hmid).leave henter).imports keptFirst, ?_⟩
        intro outcome b run c hc
        obtain hc | hc := List.mem_append.mp hc
        · exact (keptFirst c hc).mono (Progress.grows hgrows run).imports
        · exact keptRest run c hc

/-- The compilations of a task go with its states. -/
theorem Task.compilations_fit {fuel : Nat} {task : Task}
    (answers : a.imports.Answers session.importer) :
  Compilation.Fit session a (compilations session (task.operations session fuel a)) ∧
    ∀ {outcome b}, task.perform session fuel a = some (outcome, b) →
      ∀ c ∈ compilations session (task.operations session fuel a), c.Kept b
  := by
  induction fuel generalizing task a with
  | zero => exact ⟨.nil session a, by simp [operations, compilations]⟩
  | succ fuel ih =>
    rw [operations, perform]
    rcases known : task.known? session a with _ | result
    · obtain ⟨inner, kept⟩ := Progress.compilations_fit (task.action a session) grows Task.answers
        (fun _ => ih) (task.begin_imports a ▸ answers)
      refine ⟨⟨?_, inner.distinct, inner.located⟩, ?_⟩
      · intro c hc
        have fresh := inner.fresh c hc
        rwa [Compilation.Kept, begin_imports] at fresh
      · intro outcome b run c hc
        simp only at run
        split at run
        case h_1 => cases run
        case h_2 outcome mid hmid =>
          cases run
          rw [Compilation.Kept, settle_imports]
          exact kept hmid c hc
    · exact ⟨.nil session a, by simp [compilations]⟩

/-- The compilations of an action go with its states. -/
theorem Action.compilations_fit {α : Type} (action : Action α) (fuel : Nat)
    (answers : a.imports.Answers session.importer) :
  Compilation.Fit session a (compilations session (action.operations session fuel a)) ∧
    ∀ {outcome b}, (action session).resolve session (Task.perform session fuel) a
      = some (outcome, b) →
      ∀ c ∈ compilations session (action.operations session fuel a), c.Kept b
  := Progress.compilations_fit (action session) Task.grows Task.answers
    (fun _ => Task.compilations_fit) answers

/-- The compilations of a run go with its states. -/
theorem Session.Operates.fit {taken : List (Operation × State)} (h : session.Operates a taken b)
    (answers : a.imports.Answers session.importer) :
  b.imports.Answers session.importer ∧ a.imports.Extends b.imports ∧
    Compilation.Fit session a (compilations session taken) ∧
    ∀ c ∈ compilations session taken, c.Kept b
  := by
  induction h with
  | start => exact ⟨answers, .refl _, .nil session a, by simp [compilations]⟩
  | action action fuel before run ih =>
    obtain ⟨answers', extends', first, kept⟩ := ih
    obtain ⟨rest, keptRest⟩ := action.compilations_fit fuel answers'
    have grows := Progress.grows Task.grows run
    rw [compilations_append]
    refine ⟨Progress.answers Task.answers answers' run, extends'.trans grows.imports,
      first.append rest extends' kept, ?_⟩
    intro c hc
    obtain hc | hc := List.mem_append.mp hc
    · exact (kept c hc).mono grows.imports
    · exact keptRest run c hc
  | names names before ih => exact ih

end

end Jsonnet
