import Jsonnet.Proofs.Twins

/-!
# Known names

Every name that can be met in a session is one that the interner has given out, as long as
the programs and the front end take their names from it. So names of different fields stand
for different strings.
-/

namespace Jsonnet

/-- What an action comes to, and the state it leaves behind. -/
def Action.Gives {α : Type} (session : Session) (action : Action α) (a : State) (result : α)
    (b : State) : Prop :=
  ∃ fuel, action.run session fuel a = some (.ok result, b)

/-- The terms on which every name is one that the interner has given out. -/
def Terms.knowing : Terms := ⟨True, False, False, True⟩

/-- Whether every name that can be reached from the state of a session, or from some values, is
one that the interner has given out. -/
def Session.Knows (session : Session) (a : State) (values : List Value) : Prop :=
  ∃ w : LevelWorld .knowing, Twins.Inv session a.names w a a ∧
    ∀ v ∈ values, v.Matches w.val.toPairing v

/-! ### Steps -/

namespace Twins

variable {session : Session} {start : Interner} {w : LevelWorld .knowing} {a b : State}

/-- An action that is in lockstep with itself keeps the names known, whatever it comes to. -/
theorem Inv.step (inv : Inv session start w a a) (interns : session.frontEnd.Interns) {α : Type}
    {R : World .knowing → α → α → Prop} {x : Action α}
    (related : Action.Related session session R w.val x x) {fuel : Nat} {outcome : Except Failure α}
    (run : x.run session fuel a = some (outcome, b)) :
  ∃ w', w ≤ w' ∧ Inv session start w' b b ∧ a.names ≤ b.names ∧
    ∀ r, outcome = .ok r → R w'.val r r
  := by
  have hC : (comparison .knowing session session start).Lawful :=
    lawful_comparison trivial (fun h => h) (.refl session) rfl False.elim fun _ => interns
  obtain ⟨fuel, h⟩ := Action.run_iff.mp ⟨fuel, run⟩
  have hnames := (Progress.grows Task.grows h).names interns.appends
  obtain ⟨z, hz, hends⟩ := runs trivial hC inv rfl related h fun h => h.elim
  cases Progress.resolve_unique h hz
  cases hends with
  | overflow cramped => exact absurd trivial cramped
  | ok w' le inv' result =>
    refine ⟨w', le, inv', hnames, ?_⟩
    rintro _ ⟨⟩
    exact result
  | error fails sound =>
    obtain ⟨w', le, inv'⟩ := sound
    exact ⟨w', le, inv', hnames, by rintro _ ⟨⟩⟩

/-- The names that the interner has given out may be taken as known. -/
theorem Inv.know (inv : Inv session start w a a) :
  ∃ w' : LevelWorld .knowing, w ≤ w' ∧ Inv session start w' a a ∧
    ∀ name, a.names.Gives name → w'.val.name name
  := ⟨w.knowing a.names, w.le_knowing a.names, inv.grow fun _ => le_rfl, fun _ => w.named_knowing⟩

/-- Interners may be larger. -/
theorem Inv.withNames (inv : Inv session start w a a) {names : Interner} (hle : a.names ≤ names) :
  Inv session start w { a with names } { a with names }
  := inv.change { inv.twin with names := rfl } (fun _ => hle) le_rfl le_rfl

end Twins

/-! ### What can be asked of an interpreter -/

/-- What can be asked of an interpreter that has given out some values: to evaluate a program
whose names come from the interner, to force an element, to read a field, to call a function
and to write a value out; and the values that it gives then. -/
inductive Session.Asks (a : State) (values : List Value) :
    {α : Type} → Action α → (α → List Value) → Prop where
  | value {code : Code} (named : code.Named a.names.Gives) : Asks a values code.value ([·])
  | output {code : Code} (named : code.Named a.names.Gives) :
    Asks a values code.output fun _ => []
  | element {elements : Array Deferred} (mem : .array elements ∈ values) {element : Deferred}
      (inside : element ∈ elements.toList) :
    Asks a values element.force ([·])
  | field {o : Object} (mem : .object o ∈ values) {name : Name} (gives : a.names.Gives name)
      (site : Location) :
    Asks a values (o.read 0 name site) ([·])
  | call {f : Function} (mem : .function f ∈ values) {arguments : List Value}
      (given : ∀ argument ∈ arguments, argument ∈ values) (site : Location) :
    Asks a values (f.call (arguments.map .ready) site) ([·])
  | manifest {v : Value} (mem : v ∈ values) (layout : Layout) :
    Asks a values (v.manifest layout) fun _ => []

/-- The states that a session comes to, with the values that it has given. What is asked may
fail. Programs are compiled in between, which adds names. -/
inductive Session.Comes (session : Session) (start : State) : State → List Value → Prop where
  | start : Comes session start start []
  | names {a : State} {values : List Value} {names : Interner} (before : Comes session start a values)
      (le : a.names ≤ names) :
    Comes session start { a with names } values
  | given {a b : State} {values : List Value} {α : Type} {action : Action α}
      {given : α → List Value} (before : Comes session start a values)
      (asks : Session.Asks a values action given) {result : α}
      (run : action.Gives session a result b) :
    Comes session start b (given result ++ values)
  | failed {a b : State} {values : List Value} {α : Type} {action : Action α}
      {given : α → List Value} (before : Comes session start a values)
      (asks : Session.Asks a values action given) {fuel : Nat} {failure : Failure}
      (run : action.run session fuel a = some (.error failure, b)) :
    Comes session start b values

section

variable {session : Session} {a : State} {values : List Value}

/-- What can be asked is in lockstep with itself. -/
theorem Session.Asks.related {start : Interner} {w : LevelWorld .knowing}
    (inv : Twins.Inv session start w a a) (names : ∀ name, a.names.Gives name → w.val.name name)
    (matches' : ∀ v ∈ values, v.Matches w.val.toPairing v)
    (arguments : ∀ given ∈ session.arguments, a.names.Gives given.1) {α : Type} {action : Action α}
    {given : α → List Value} (h : Asks a values action given) :
  ∃ R, Action.Related session session R w.val action action ∧
    ∀ (w' : LevelWorld .knowing) r, R w'.val r r → ∀ v ∈ given r, v.Matches w'.val.toPairing v
  := by
  have result : ∀ (w' : LevelWorld .knowing) v, Matching w'.val v v →
      ∀ u ∈ [v], u.Matches w'.val.toPairing u := by
    intro w' v h u hu
    cases List.mem_singleton.mp hu
    exact h
  have base := base_alike inv.library
  have fits : ∀ code : Code, code.FitsIn .knowing session.base := fun _ => ⟨False.elim, False.elim⟩
  have arguments : ∀ given ∈ session.arguments, w.val.name given.1 :=
    fun given h => names _ (arguments given h)
  cases h with
  | value named =>
    exact ⟨Matching, .inFrame Terms.agrees_rfl (.program (named.mono names) (fits _) base arguments),
      result⟩
  | output named =>
    exact ⟨Same, .inFrame Terms.agrees_rfl (.output (named.mono names) (fits _) base arguments),
      fun _ _ _ _ h => absurd h List.not_mem_nil⟩
  | @element elements mem element inside =>
    cases matches' _ mem with
    | array elements =>
      have deferred := List.forall₂_same.mp (alike_deferreds_iff.mp elements) element inside
      exact ⟨Matching, force_related (.alike deferred), result⟩
  | field mem gives site =>
    cases matches' _ mem with
    | object object =>
      exact ⟨Matching, read_related Terms.agrees_rfl 0 object (names _ gives), result⟩
  | call mem ready site =>
    cases matches' _ mem with
    | function function =>
      refine ⟨Matching, call_related Terms.agrees_rfl function ?_, result⟩
      rw [alike_deferreds_iff, List.forall₂_same]
      intro deferred hdeferred
      obtain ⟨v, hv, rfl⟩ := List.mem_map.mp hdeferred
      exact .ready (w.alike_of_matches (matches' v (ready v hv)))
  | manifest mem layout =>
    exact ⟨Same, manifest_related layout (matches' _ mem), fun _ _ _ _ h => absurd h List.not_mem_nil⟩

/-- The names stay known, whatever is asked. -/
theorem Session.Knows.asks (interns : session.frontEnd.Interns)
    (arguments : ∀ given ∈ session.arguments, a.names.Gives given.1) (known : session.Knows a values)
    {α : Type} {action : Action α} {given : α → List Value} (h : Asks a values action given)
    {fuel : Nat} {outcome : Except Failure α} {b : State}
    (run : action.run session fuel a = some (outcome, b)) :
  a.names ≤ b.names ∧ session.Knows b values ∧
    ∀ result, outcome = .ok result → session.Knows b (given result ++ values)
  := by
  obtain ⟨w, inv, matches'⟩ := known
  obtain ⟨w₁, hle₁, inv₁, names⟩ := inv.know
  have matches₁ := fun v hv => (matches' v hv).mono hle₁
  obtain ⟨R, related, results⟩ := h.related inv₁ names matches₁ arguments
  obtain ⟨w₂, hle₂, inv₂, hnames, hresult⟩ := inv₁.step interns related run
  have matches₂ := fun v hv => (matches₁ v hv).mono hle₂
  have inv₂ : Twins.Inv session b.names w₂ b b := { inv₂ with names := False.elim }
  refine ⟨hnames, ⟨w₂, inv₂, matches₂⟩, ?_⟩
  intro result heq
  refine ⟨w₂, inv₂, ?_⟩
  intro v hv
  obtain hv | hv := List.mem_append.mp hv
  · exact results w₂ result (hresult result heq) v hv
  · exact matches₂ v hv

/-- Wherever a prepared session comes to, the names are known. -/
theorem Session.Comes.knows (interns : session.frontEnd.Interns) {names : Interner}
    (prepared : session.Prepared names) {limit : Nat}
    (h : session.Comes (.new names limit) a values) :
  session.Knows a values
  := by
  suffices names ≤ a.names ∧ session.Knows a values from this.2
  induction h with
  | start => exact ⟨le_rfl, _, Twins.outset_inv .knowing prepared limit, by simp⟩
  | names before le ih =>
    obtain ⟨hle, w, inv, matches'⟩ := ih
    exact ⟨hle.trans le, w, { inv.withNames le with names := False.elim }, matches'⟩
  | given before asks run ih =>
    obtain ⟨hle, known⟩ := ih
    obtain ⟨fuel, run⟩ := run
    have arguments := fun given hgiven => (prepared.arguments given hgiven).mono hle
    obtain ⟨hnames, -, hgiven⟩ := known.asks interns arguments asks run
    exact ⟨hle.trans hnames, hgiven _ rfl⟩
  | failed before asks run ih =>
    obtain ⟨hle, known⟩ := ih
    have arguments := fun given hgiven => (prepared.arguments given hgiven).mono hle
    obtain ⟨hnames, hknown, -⟩ := known.asks interns arguments asks run
    exact ⟨hle.trans hnames, hknown⟩

end

end Jsonnet
