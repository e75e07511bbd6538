import Jsonnet.Proofs.Moments
import Jsonnet.Proofs.RecodedExpressions
import Jsonnet.Proofs.Simulation
import Jsonnet.Proofs.StackLimit
import Jsonnet.Proofs.Storing

/-!
# Traps

A trap exchanges one node of a file for an error of the program. The program with the trap goes
on like the one without it until the node is evaluated; then it fails with the error of the trap,
whatever was going on. So no failure is kept, tried again, replaced or passed over, by thunks,
fields, checks, imports, operators or functions of the library.
-/

namespace Jsonnet

/-! ### Planting an error -/

namespace Arena

/-- Whatever the expressions of the arena refer to is there. -/
def Closed (arena : Arena) : Prop :=
  ∀ id, ∀ next ∈ arena.below id, next.id.index < arena.size

/-- The arena in which a node is an error whose message is a string literal. The literal is a new
node behind all others; all spans stay as they are. -/
def plant (arena : Arena) (id : NodeId) (message : Name) : Arena := { arena with
  nodes := (arena.nodes.setIfInBounds id.index (.error ⟨arena.size⟩)).push (.string message)
  spans := arena.spans.push .none }

variable (arena : Arena) {id : NodeId} (message : Name)

/-- Nothing stands below an expression that is not there. -/
theorem below_of_le (h : arena.size ≤ id.index) :
  arena.below id = []
  := by
  have hnode : arena.node id = .null := by
    rw [node, Array.getElem?_eq_none h]
    rfl
  rw [below, hnode]

theorem closed_of_forall {arena : Arena}
    (h : ∀ index < arena.size, ∀ next ∈ arena.below ⟨index⟩, next.id.index < arena.size) :
  arena.Closed
  := by
  intro id next hnext
  by_cases hid : id.index < arena.size
  · exact h id.index hid next hnext
  · rw [arena.below_of_le (Nat.not_lt.mp hid)] at hnext
    cases hnext

theorem span_plant (other : NodeId) :
  (arena.plant id message).span other = arena.span other
  := by
  simp only [span, plant, Array.getElem?_push]
  split
  case isTrue h => rw [h, Array.getElem?_eq_none le_rfl]; rfl
  case isFalse => rfl

/-- The other nodes stay as they are. -/
theorem node_plant_of_ne {other : NodeId} (h : other.index < arena.size) (hne : other ≠ id) :
  (arena.plant id message).node other = arena.node other
  := by
  have hsize : other.index ≠ (arena.nodes.setIfInBounds id.index
      (.error ⟨arena.size⟩)).size := by
    rw [Array.size_setIfInBounds]
    exact Nat.ne_of_lt h
  have hindex : id.index ≠ other.index := by
    intro heq
    obtain ⟨index⟩ := id
    obtain ⟨index'⟩ := other
    exact hne (congrArg NodeId.mk heq.symm)
  rw [node, plant, Array.getElem?_push, if_neg hsize, Array.getElem?_setIfInBounds, if_neg hindex,
    node]

/-- The node is an error with a new message. -/
theorem node_plant_self (h : id.index < arena.size) :
  (arena.plant id message).node id = .error ⟨arena.size⟩
  := by
  have hsize : id.index ≠ (arena.nodes.setIfInBounds id.index (.error ⟨arena.size⟩)).size := by
    rw [Array.size_setIfInBounds]
    exact Nat.ne_of_lt h
  rw [node, plant, Array.getElem?_push, if_neg hsize, Array.getElem?_setIfInBounds, if_pos rfl,
    if_pos (show id.index < arena.nodes.size from h)]
  rfl

theorem node_plant_message :
  (arena.plant id message).node ⟨arena.size⟩ = .string message
  := by
  have hsize : arena.size = (arena.nodes.setIfInBounds id.index (.error ⟨arena.size⟩)).size := by
    rw [Array.size_setIfInBounds]
    rfl
  rw [node, plant, Array.getElem?_push, if_pos hsize]
  rfl

end Arena

/-- A node of a file that is to be an error with a message. The file is given by the arenas that it
is compiled to, which have to be closed and to hold the node. -/
structure Trap where
  files : Arena → Bool
  node : NodeId
  message : Name
  closed : ∀ arena, files arena = true → arena.Closed
  inside : ∀ arena, files arena = true → node.index < arena.size

namespace Trap

variable (trap : Trap)

/-- The code with the trap planted in its file. -/
def plantIn (code : Code) : Code :=
  if trap.files code.arena = true ∧ code.root.index < code.arena.size then
    ⟨code.arena.plant trap.node trap.message, code.root⟩
  else code

/-- Planting the trap in every file that is to have it. -/
def recoding : Recoding where
  apply := trap.plantIn
  location_apply code := by
    rw [plantIn]
    split
    · exact congrArg (Location.mk code.arena.file) (code.arena.span_plant trap.message code.root)
    · rfl

/-- The code is the node of the trap. -/
def Springs (code : Code) : Prop := trap.files code.arena = true ∧ code.root = trap.node

/-- The task is to evaluate the node of the trap. -/
def IsSprung : Task → Prop
  | .evaluate code _ => trap.Springs code
  | _ => False

variable {trap}

/-- Wherever the trap is not, everything stays as it is. -/
theorem keeps {code : Code} (h : ¬ trap.Springs code) :
  trap.recoding.Keeps code
  := by
  by_cases hplant : trap.files code.arena = true ∧ code.root.index < code.arena.size
  · have happly : ∀ id : NodeId, id.index < code.arena.size →
        trap.recoding (code.sibling id) = ⟨code.arena.plant trap.node trap.message, id⟩ :=
      fun id hid => if_pos ⟨hplant.1, hid⟩
    have hroot : trap.recoding code = ⟨code.arena.plant trap.node trap.message, code.root⟩ :=
      if_pos hplant
    have hne : code.root ≠ trap.node := fun heq => h ⟨hplant.1, heq⟩
    constructor
    case node =>
      rw [hroot]
      exact code.arena.node_plant_of_ne trap.message hplant.2 hne
    case location =>
      intro id
      rw [hroot]
      exact congrArg (Location.mk code.arena.file) (code.arena.span_plant trap.message id)
    case sibling =>
      intro next hnext
      rw [happly next.id (trap.closed _ hplant.1 _ next hnext), hroot]
      rfl
    all_goals
      rw [hroot]
      intros
      rfl
  · have hroot : trap.recoding code = code := if_neg hplant
    constructor
    case sibling =>
      intro next hnext
      rw [hroot]
      by_cases hfile : trap.files code.arena = true
      · -- The root is not there, so nothing stands below it.
        rw [code.arena.below_of_le (Nat.not_lt.mp fun hsize => hplant ⟨hfile, hsize⟩)] at hnext
        cases hnext
      · exact if_neg fun hand => hfile hand.1
    all_goals simp only [hroot, implies_true]

/-- Evaluating a string literal takes the text of its name. -/
theorem evaluateCode_string {session : Session} {code : Code} {name : Name}
    (hnode : code.node = .string name) (env : Env) :
  evaluateCode code env session
    = .step (.count .expression) fun _ => .step (.text name) fun s => .finished (.string s)
  := by
  simp only [evaluateCode, hnode]
  rfl

/-- Evaluating an error evaluates its message, which has to be a string. -/
theorem evaluateCode_error {session : Session} {code : Code} {message : NodeId}
    (hnode : code.node = .error message) (env : Env) :
  evaluateCode code env session
    = .step (.count .expression) fun _ => .wait none (.evaluate (code.sibling message) env)
        fun value => (value.expectString code.location).andThen
          (fun s => Action.raise (.user s) code.location) session
  := by
  simp only [evaluateCode, hnode]
  rfl

/-- Evaluating the node of the trap fails with its message. -/
theorem perform_springs {session : Session} {code : Code} (h : trap.Springs code) (env : Env)
    (fuel : Nat) (b : State) :
  ∃ trace d, (Task.evaluate (trap.recoding code) env).perform session (fuel + 2) b
    = some (.error (.runtime (.user (b.names.lookup trap.message)) trace), d)
  := by
  have hplant : trap.files code.arena = true ∧ code.root.index < code.arena.size := by
    rw [h.2]
    exact ⟨h.1, trap.inside _ h.1⟩
  have hroot : trap.recoding code = ⟨code.arena.plant trap.node trap.message, code.root⟩ :=
    if_pos hplant
  rw [h.2] at hroot
  have herror : (trap.recoding code).node = Node.error ⟨code.arena.size⟩ := by
    rw [hroot]
    exact code.arena.node_plant_self trap.message (trap.inside _ h.1)
  have hmessage : (Code.sibling (trap.recoding code) ⟨code.arena.size⟩).node
      = .string trap.message := by
    rw [hroot]
    exact code.arena.node_plant_message trap.message
  rw [Task.perform_unknown rfl, Task.action, evaluateCode_error herror]
  simp only [Progress.resolve, Operation.apply, State.enter]
  rw [Task.perform_unknown rfl, Task.action, evaluateCode_string hmessage]
  exact ⟨_, _, rfl⟩

end Trap

/-! ### Meeting the trap -/

/-- A computation that evaluates the node of a trap. -/
def Progress.Meets (session : Session) (trap : Trap) {α : Type} (p : Progress α) (a : State) : Prop :=
  ∃ above task s, p.Moment session a above task s ∧ trap.IsSprung task

/-- A task that evaluates the node of a trap, or is to do so. -/
def Task.Meets (session : Session) (trap : Trap) (task : Task) (a : State) : Prop :=
  trap.IsSprung task ∨ task.known? session a = none ∧
    (task.action a session).Meets session trap (task.begin a)

namespace Progress

variable {session : Session} {trap : Trap} {α : Type} {a b : State}

theorem not_meets_finished {result : α} :
  ¬ (Progress.finished result).Meets session trap a
  := by
  rintro ⟨above, task, s, moment, -⟩
  cases moment

/-- A computation meets the trap behind an operation that gives a result. -/
theorem meets_step {operation : Operation} {next : operation.Result → Progress α}
    {result : operation.Result} (taken : operation.apply session a = (.ok result, b)) :
  (Progress.step operation next).Meets session trap a ↔ (next result).Meets session trap b
  := by
  constructor
  · rintro ⟨above, task, s, moment, sprung⟩
    cases moment with
    | step taken' later =>
      cases taken.symm.trans taken'
      exact ⟨above, task, s, later, sprung⟩
  · rintro ⟨above, task, s, moment, sprung⟩
    exact ⟨above, task, s, .step taken moment, sprung⟩

theorem not_meets_step {operation : Operation} {next : operation.Result → Progress α}
    {failure : Failure} (fails : operation.apply session a = (.error failure, b)) :
  ¬ (Progress.step operation next).Meets session trap a
  := by
  rintro ⟨above, task, s, moment, -⟩
  cases moment with
  | step taken later => cases fails.symm.trans taken

/-- Without room for its frame a task does not meet the trap. -/
theorem not_meets_wait {frame? : Option Frame} {task : Task} {next : task.Result → Progress α}
    {failure : Failure} (full : a.enter frame? = .error failure) :
  ¬ (Progress.wait frame? task next).Meets session trap a
  := by
  rintro ⟨above, inner, s, moment, -⟩
  obtain ⟨b, enters, -⟩ := moment.cases_wait
  cases full.symm.trans enters

/-- A computation that waits for a task meets the trap while the task is carried out, or later. -/
theorem meets_wait {frame? : Option Frame} {task : Task} {next : task.Result → Progress α}
    (enters : a.enter frame? = .ok b) :
  (Progress.wait frame? task next).Meets session trap a ↔
    task.Meets session trap b ∨ ∃ fuel result c,
      task.perform session fuel b = some (.ok result, c) ∧
        (next result).Meets session trap (c.leave frame?)
  := by
  constructor
  · rintro ⟨above, inner, s, moment, sprung⟩
    obtain ⟨b', enters', h⟩ := moment.cases_wait
    cases enters.symm.trans enters'
    obtain ⟨-, rfl, rfl⟩ | ⟨within, -, unknown, moment⟩ | ⟨fuel, result, c, ends, moment⟩ := h
    · exact .inl (.inl sprung)
    · exact .inl (.inr ⟨unknown, within, inner, s, moment, sprung⟩)
    · exact .inr ⟨fuel, result, c, ends, above, inner, s, moment, sprung⟩
  · rintro ((sprung | ⟨unknown, within, inner, s, moment, sprung⟩) |
      ⟨fuel, result, c, ends, above, inner, s, moment, sprung⟩)
    · exact ⟨[], task, b, .asked enters, sprung⟩
    · exact ⟨_, inner, s, .inside enters unknown moment, sprung⟩
    · exact ⟨above, inner, s, .later enters ends moment, sprung⟩

end Progress

/-! ### Until the trap is met -/

/-- What a run with the trap comes to, compared with one without it that comes to an outcome: to
the same if the trap is not met, and to its error if it is. The error may take a little more fuel. -/
def Trap.Decides (trap : Trap) (text : String) (met : Prop) {α β : Type} (g : α → β)
    (x : Outcome α) (fuel : Nat) (run : Nat → Option (Outcome β)) : Prop :=
  (¬ met ∧ ∃ y, run fuel = some y ∧ Outcome.Recodes trap.recoding g x y) ∨
    (met ∧ ∃ trace d, run (fuel + 1) = some (.error (.runtime (.user text) trace), d))

section

variable {trap : Trap} {session : Session} (appends : session.frontEnd.Appends) {text : String}

include appends

/-- A computation comes to the same until its tasks meet the trap. -/
theorem Progress.Recodes.decides {fuel : Nat}
    (tasks : ∀ {task task' : Task} {k : task.Result → task'.Result} {a b : State}
      {x : Outcome task.Result}, task.Recodes trap.recoding task' k → a.Recodes trap.recoding b →
      a.names.string? trap.message = some text → task.perform session fuel a = some x →
      trap.Decides text (task.Meets session trap a) k x fuel fun fuel =>
        task'.perform (session.recode trap.recoding) fuel b)
    {α β : Type} {g : α → β} {p : Progress α} {q : Progress β} (h : p.Recodes trap.recoding g q)
    {a b : State} (states : a.Recodes trap.recoding b)
    (known : a.names.string? trap.message = some text) {x : Outcome α}
    (run : p.resolve session (Task.perform session fuel) a = some x) :
  trap.Decides text (p.Meets session trap a) g x fuel fun fuel =>
    q.resolve (session.recode trap.recoding) (Task.perform (session.recode trap.recoding) fuel) b
  := by
  induction h generalizing a b with
  | finished result =>
    cases run
    exact .inl ⟨not_meets_finished, _, rfl, rfl, states⟩
  | @step op op' k rest rest' operation next ih =>
    rw [resolve] at run
    have grows := op.grows session a
    obtain ⟨result, c, d, hc, hd, states'⟩ | ⟨failure, c, d, hc, hd, states'⟩ :=
      (operation.apply session states).cases
    · rw [hc] at run grows
      have decided := ih result states' (grows.names appends _ _ known) run
      simp only [Trap.Decides, meets_step hc, resolve, hd]
      exact decided
    · rw [hc] at run
      cases run
      refine .inl ⟨not_meets_step hc, (.error failure, d), ?_, rfl, states'⟩
      simp only [resolve, hd]
  | @wait frame? task task' k rest rest' related next ih =>
    rw [resolve] at run
    obtain ⟨a', b', ha, hb, states'⟩ | ⟨failure, ha, hb⟩ := states.enter frame?
    · rw [ha] at run
      dsimp only at run
      have known' : a'.names.string? trap.message = some text := by
        obtain ⟨stack, rfl, -⟩ := State.enter_eq (c := a) ha
        exact known
      cases hrun : task.perform session fuel a' with
      | none =>
        rw [hrun] at run
        cases run
      | some y =>
        obtain ⟨unmet, y', hrun', ended⟩ | ⟨met, trace, d, hrun'⟩ :=
          tasks related states' known' hrun
        · obtain ⟨result, c, d, rfl, rfl, after⟩ | ⟨failure, c, d, rfl, rfl, after⟩ := ended.cases
          · rw [hrun] at run
            have grows := (Task.grows hrun).leave ha
            have decided := ih result (after.leave frame?) (grows.names appends _ _ known) run
            have met_iff : (Progress.wait frame? task rest).Meets session trap a ↔
                (rest result).Meets session trap (c.leave frame?) := by
              rw [meets_wait ha]
              constructor
              · rintro (met | ⟨fuel', result', c', ends, met⟩)
                · exact (unmet met).elim
                · cases Task.perform_unique hrun ends
                  exact met
              · intro met
                exact .inr ⟨fuel, result, c, hrun, met⟩
            obtain ⟨unmet', y', hq, after'⟩ | ⟨met, trace, e, hq⟩ := decided
            · refine .inl ⟨unmet' ∘ met_iff.mp, y', ?_, after'⟩
              simp only [resolve, hb, hrun']
              exact hq
            · refine .inr ⟨met_iff.mpr met, trace, e, ?_⟩
              simp only [resolve, hb, Task.perform_succ hrun']
              exact hq
          · rw [hrun] at run
            cases run
            refine .inl ⟨?_, (.error failure, d.leave frame?), ?_, rfl, after.leave frame?⟩
            · rw [meets_wait ha]
              rintro (met | ⟨fuel', result, c', ends, -⟩)
              · exact unmet met
              · cases Task.perform_unique hrun ends
            · simp only [resolve, hb, hrun']
        · refine .inr ⟨(meets_wait ha).mpr (.inl met), trace, d.leave frame?, ?_⟩
          simp only [resolve, hb, hrun']
    · rw [ha] at run
      cases run
      refine .inl ⟨not_meets_wait ha, (.error failure, b), ?_, rfl, states⟩
      simp only [resolve, hb]

/-- A task comes to the same until it meets the trap. The trap is met by the task that evaluates
its node, or by another one while the task is carried out; what is known meets nothing. -/
theorem Task.Recodes.decides {fuel : Nat} {task task' : Task} {k : task.Result → task'.Result}
    {a b : State} {x : Outcome task.Result} (h : task.Recodes trap.recoding task' k)
    (states : a.Recodes trap.recoding b) (known : a.names.string? trap.message = some text)
    (run : task.perform session fuel a = some x) :
  trap.Decides text (task.Meets session trap a) k x fuel fun fuel =>
    task'.perform (session.recode trap.recoding) fuel b
  := by
  induction fuel generalizing task task' a b with
  | zero => cases run
  | succ fuel ih =>
    by_cases sprung : trap.IsSprung task
    · right
      refine ⟨.inl sprung, ?_⟩
      cases h with
      | evaluate code env =>
        have message : b.names.lookup trap.message = text := by
          rw [states.names, Interner.lookup_eq, known]
          rfl
        rw [← message]
        exact Trap.perform_springs sprung (env.recode trap.recoding) fuel b
      | _ => exact sprung.elim
    have hknown := h.known? states session
    cases hk : task.known? session a with
    | some result =>
      rw [perform, hk] at run
      rw [hk] at hknown
      cases run
      refine .inl ⟨?_, (.ok (k result), b), ?_, rfl, states⟩
      · rintro (met | ⟨unknown, -⟩)
        · exact sprung met
        · cases hk.symm.trans unknown
      · dsimp only
        rw [perform, hknown]
        rfl
    | none =>
      rw [hk] at hknown
      rw [perform_unknown hk] at run
      obtain ⟨⟨outcome, c⟩, hrun, rfl⟩ := Option.map_eq_some_iff.mp run
      have met_iff : task.Meets session trap a ↔
          (task.action a session).Meets session trap (task.begin a) := by
        constructor
        · rintro (met | ⟨-, met⟩)
          · exact (sprung met).elim
          · exact met
        · intro met
          exact .inr ⟨hk, met⟩
      have keeps : ∀ code env, task = .evaluate code env → trap.recoding.Keeps code := by
        rintro code env rfl
        exact Trap.keeps sprung
      have begun : (task.begin a).names.string? trap.message = some text := by
        cases task <;> exact known
      obtain ⟨unmet, ⟨outcome', d⟩, hd, ended⟩ | ⟨met, trace, d, hd⟩ :=
        Progress.Recodes.decides appends ih (h.action session states keeps)
          (h.begin states) begun hrun
      · refine .inl ⟨unmet ∘ met_iff.mp,
          (outcome', task'.settle (session.recode trap.recoding) d outcome'), ?_, ?_⟩
        · dsimp only at hd ⊢
          rw [perform_unknown hknown, hd]
          rfl
        · obtain ⟨rfl, after⟩ := ended
          exact ⟨rfl, h.settle after outcome⟩
      · refine .inr ⟨met_iff.mpr met, trace,
          task'.settle (session.recode trap.recoding) d (.error (.runtime (.user text) trace)), ?_⟩
        dsimp only at hd ⊢
        rw [perform_unknown hknown, hd]
        rfl

end

/-! ### Programs -/

/-- A setup whose front end plants a trap. -/
def Setup.withTrap (setup : Setup) (trap : Trap) : Setup :=
  { setup with frontEnd := setup.frontEnd.recode trap.recoding }

/-- A program that evaluates the node of a trap in a new session. -/
def Setup.Meets (setup : Setup) (names : Interner) (code : Code) (trap : Trap) : Prop :=
  (code.output (setup.start names).1).Meets (setup.start names).1 trap (setup.start names).2

/-- The library holds no codes. -/
theorem Session.Prepared.library_recode {session : Session} {names : Interner}
    (h : session.Prepared names) (ρ : Recoding) :
  session.library.recode ρ = session.library
  := by
  obtain ⟨fields, hlibrary, hfields⟩ := h.library
  have hrecode : recodeFields ρ fields = fields := by
    rw [recodeFields_eq]
    nth_rewrite 2 [← List.map_id fields]
    apply List.map_congr_left
    rintro ⟨name, visibility, member⟩ hfield
    obtain ⟨-, f, rfl⟩ := hfields _ hfield
    rfl
  rw [hlibrary, Object.recode, Leaf.recode, hrecode]
  rfl

/-- A setup with a trap starts like the one without it. -/
theorem Setup.start_withTrap (setup : Setup) (trap : Trap) (names : Interner) :
  (setup.withTrap trap).start names
    = ((setup.start names).1.recode trap.recoding, (setup.start names).2)
  := by
  have hstart : (setup.withTrap trap).start names
      = ({ (setup.start names).1 with frontEnd := setup.frontEnd.recode trap.recoding },
        (setup.start names).2) := by
    rw [start, start, withTrap]
  have hlibrary := (setup.start_prepared names).library_recode trap.recoding
  rw [hstart, Session.recode, hlibrary, setup.start_frontEnd]

/-- In a state in which nothing has been computed there are no codes. -/
theorem State.new_recodes (ρ : Recoding) (names : Interner) (maxStack : Nat) :
  (State.new names maxStack).Recodes ρ (.new names maxStack)
  where
  names := rfl
  stack := rfl
  thunks := by simp [State.new]
  slots := by simp [State.new, Slots.empty]
  checks := rfl
  fieldOf _ := by simp [State.new]
  importOf _ := by simp [State.new, ImportCache.empty]
  externalOf _ := by simp [State.new]
  counters := rfl

/-- In one state a program meets the trap and fails with its error, or does not meet it and comes
to the same. -/
theorem Session.Yields.withTrap {session : Session} (appends : session.frontEnd.Appends)
    {trap : Trap} {state : State} {text : String}
    (states : state.Recodes trap.recoding state)
    (known : state.names.string? trap.message = some text) {code : Code}
    {y : Except Failure String × Counters} (h : session.Yields state code y) :
  ((code.output session).Meets session trap state ∧ ∃ trace counters,
      (session.recode trap.recoding).Yields state (trap.plantIn code)
        (.error (.runtime (.user text) trace), counters)) ∨
    (¬ (code.output session).Meets session trap state ∧
      (session.recode trap.recoding).Yields state (trap.plantIn code) y)
  := by
  obtain ⟨fuel, x, run, rfl⟩ := yields_iff.mp h
  have recodes : Action.Recodes trap.recoding session id code.output (trap.plantIn code).output :=
    output_recodes code
  obtain ⟨unmet, z, hz, houtcome, after⟩ | ⟨met, trace, d, hd⟩ :=
    recodes.decides appends (Task.Recodes.decides appends) states known run
  · refine .inr ⟨unmet, yields_iff.mpr ⟨fuel, z, hz, ?_⟩⟩
    rw [houtcome, after.counters]
    cases x.1 <;> rfl
  · exact .inl ⟨met, trace, d.counters, yields_iff.mpr ⟨fuel + 1, _, hd, rfl⟩⟩

/-- No error is swallowed or replaced. A program that comes to an end is compared with the one in
which a node of a file is an error, at the same location. If the node is evaluated at all, the
other program fails with that error; otherwise it comes to the same text or failure, with the
same backtrace, and takes the same number of steps of each kind. -/
theorem Setup.error_prevails {setup : Setup} (appends : setup.frontEnd.Appends) (trap : Trap)
    {names : Interner} {text : String} (known : names.string? trap.message = some text)
    {code : Code} {y : Except Failure String × Counters} (comes : setup.Yields names code y) :
  (setup.Meets names code trap → ∃ trace counters, (setup.withTrap trap).Yields names
      (trap.plantIn code) (.error (.runtime (.user text) trace), counters)) ∧
    (¬ setup.Meets names code trap → (setup.withTrap trap).Yields names (trap.plantIn code) y)
  := by
  obtain ⟨session, start, hstart, -⟩ := setup.exists_start names
  have known := setup.le_start names _ _ known
  have frontEnd := setup.start_frontEnd names
  rw [hstart] at known frontEnd
  rw [← frontEnd] at appends
  rw [Yields, hstart] at comes
  simp only [Meets, Yields, start_withTrap, hstart]
  obtain ⟨met, fails⟩ | ⟨unmet, same⟩ := comes.withTrap appends (State.new_recodes _ _ _) known
  · exact ⟨fun _ => fails, fun unmet => (unmet met).elim⟩
  · exact ⟨fun met => (unmet met).elim, fun _ => same⟩

deriving instance DecidableEq for Node
deriving instance DecidableEq for Arena

/-- The trap at a node of one arena. -/
def Trap.onlyAt {arena : Arena} (closed : arena.Closed) (node : NodeId)
    (inside : node.index < arena.size) (message : Name) : Trap where
  files other := decide (other = arena)
  node
  message
  closed other h := by
    rw [of_decide_eq_true h]
    exact closed
  inside other h := by
    rw [of_decide_eq_true h]
    exact inside

theorem Code.closed_localNull :
  Code.localNull.arena.Closed
  := by
  apply Arena.closed_of_forall
  decide

/-- A variable is evaluated by way of its thunk, where the error comes up. -/
theorem Setup.error_prevails_of_local :
  let names := (Interner.new.intern "planted").2
  let trap := Trap.onlyAt Code.closed_localNull ⟨0⟩ (by decide) (Interner.new.intern "planted").1
  ∃ y, bare.Yields names .localNull y ∧ bare.Meets names .localNull trap ∧
    ∃ trace counters, (bare.withTrap trap).Yields names (trap.plantIn .localNull)
      (.error (.runtime (.user "planted") trace), counters)
  := by
  intro names trap
  have appends : bare.frontEnd.Appends := fun _ _ _ => le_rfl
  have room : Interner.new.HasRoom ["planted"] := Interner.hasRoom_new (by decide)
  have known : names.string? trap.message = some "planted" := room.intern.2.string
  obtain ⟨session, start, hstart, -⟩ := bare.exists_start names
  have comes : ∃ y, bare.Yields names .localNull y := by
    simp only [Yields, hstart]
    exact ⟨_, Session.yields_iff.mpr ⟨6, _, rfl, rfl⟩⟩
  have meets : bare.Meets names .localNull trap := by
    simp only [Meets, hstart]
    have file : Code.localNull.arena = Code.localNull.arena := rfl
    have sprung : trap.Springs ⟨Code.localNull.arena, ⟨0⟩⟩ := ⟨decide_eq_true file, rfl⟩
    have moment : ∃ above env s, (Code.localNull.output session).Moment session
        (.new start bare.settings.maxStack) above (.evaluate ⟨Code.localNull.arena, ⟨0⟩⟩ env) s :=
      ⟨_, _, _, .inside rfl rfl (.inside rfl rfl (.step rfl (.step rfl (.inside rfl rfl
        (.step rfl (.step rfl (.inside rfl rfl (.step rfl (.asked rfl)))))))))⟩
    obtain ⟨above, env, s, moment⟩ := moment
    exact ⟨above, _, s, moment, sprung⟩
  obtain ⟨y, comes⟩ := comes
  exact ⟨y, comes, meets, (error_prevails appends trap known comes).1 meets⟩

end Jsonnet
