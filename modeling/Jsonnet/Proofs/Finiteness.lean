import Jsonnet.Proofs.FiniteNumbers
import Jsonnet.Proofs.Holding

/-!
# All numbers are finite

Evaluation makes no number that is not finite, whatever operators and functions of the library
run: arithmetic is checked, and what is not checked comes from numbers and sizes that are finite.
So all numbers at hand in a session are finite if the literals of the programs are, those of the
programs from outside included, and so are the numbers that the client brings along.
-/

namespace Jsonnet

/-! ### Finite literals -/

/-- Whether all number literals of a code are finite. -/
def Code.Finite (code : Code) : Prop :=
  ∀ place, code.arena.Reaches code.root place →
    ∀ x, code.arena.node place.id = .number x → x.Finite

/-- The literals of what stands right below a code are among its literals. -/
theorem Code.Finite.below {code : Code} (h : code.Finite) {next : Spot}
    (hnext : next ∈ code.arena.below code.root) :
  (code.sibling next.id).Finite
  := by
  intro place path x literal
  exact h _ (Arena.Reaches.under hnext path) x literal

/-- An expression that has no parts has finite literals if it is no other number literal. -/
theorem Code.Finite.of_leaf {code : Code} (leaf : code.arena.below code.root = [])
    (literal : ∀ x, code.node = .number x → x.Finite) :
  code.Finite
  := by
  intro place path x hx
  rw [path.id_eq_root leaf] at hx
  exact literal x hx

/-- The standard of finite numbers and literals, for sizes of 64 bits. -/
def Standard.allFinite : Standard where
  number := Number.Finite
  code := Code.Finite
  size n := n < 2 ^ 64
  fields _ := True
  failure _ := True
  finite := id
  opposite := Number.Finite.neg
  measured := Number.finite_ofNat
  literal h hnode := h _ .root _ hnode
  below h hnext := Code.Finite.below h hnext
  once _ := trivial
  reported _ := trivial

/-! ### Numbers at hand -/

/-- The numbers in finite data are finite. -/
theorem Proper.finite_of_inside {session : Session} {start : Interner} {made : List Object}
    {a : State} (state : a.IsProper .allFinite session start made) {whole : Datum}
    (proper : Proper .allFinite made whole) {x : Number}
    (inside : (Datum.value (.number x)).Inside whole) :
  x.Finite
  := by
  cases inside.proper state proper with
  | number finite => exact finite

/-- All numbers at hand in a call of a client are finite, whatever was called before it and whatever
that came to, and whether or not the call comes to an end. The client has to give finite numbers
and literals to this call and to those before it, the literals of imports and external programs
have to be finite, and the sizes of which a length is taken have 64 bits. -/
theorem Session.History.numbers_finite {session : Session} {names : Interner}
    (prepared : session.Prepared names) (appends : session.frontEnd.Appends) {limit : Nat}
    {calls : List (Call × State)} {a : State} {values : List Value}
    (h : session.History (.new names limit) calls a values) {call : Call}
    (uses : call.Uses values) (meets : ∀ c ∈ (call, a) :: calls, c.1.Meets .allFinite)
    (sizes : ∀ c ∈ (call, a) :: calls, (c.1.action session).Modest .allFinite session c.2)
    {s : State} (sources : ∀ code, session.Source names [] s.imports code → code.Finite)
    {whole : Datum} (held : call.AtHand session values a s whole) {x : Number}
    (inside : (Datum.value (.number x)).Inside whole) :
  x.Finite
  := by
  have supplies : session.Supplies .allFinite names s.imports :=
    ⟨fun later file source hle => hle.trans (appends later file source), sources _⟩
  obtain ⟨meets, earlierMeets⟩ := List.forall_mem_cons.mp meets
  obtain ⟨modest, earlierModest⟩ := List.forall_mem_cons.mp sizes
  obtain ⟨made, proper, hvalues⟩ :=
    h.proper prepared (fun _ _ => trivial) le_rfl supplies earlierMeets earlierModest held.imports
  obtain ⟨more, state, whole⟩ :=
    held.proper supplies proper hvalues uses meets modest (.refl _)
  exact whole.finite_of_inside state inside

/-- The number that a program is made of is at hand when the program has come to it. -/
theorem Session.History.numbers_finite_of_literal :
  let session := Session.bare
  let start := State.new .onlyEmpty 500
  let code := Code.ofNode (.number (.ofNat 1))
  let call := Call.evaluateValue code
  session.Prepared .onlyEmpty ∧ session.frontEnd.Appends ∧
    session.History start [] start [.object session.library] ∧
    call.Uses [.object session.library] ∧ call.Meets .allFinite ∧
    (call.action session).Modest .allFinite session start ∧
    ∃ s, (∀ c, session.Source .onlyEmpty [] s.imports c → c.Finite) ∧
      call.AtHand session [.object session.library] start s (.value (.number (.ofNat 1))) ∧
      (Number.ofNat 1).Finite
  := by
  intro session start code call
  have prepared : session.Prepared .onlyEmpty :=
    ⟨⟨[], rfl, by simp⟩, by simp [session, Session.bare]⟩
  have appends : session.frontEnd.Appends := fun _ _ _ => le_rfl
  have history : session.History start [] start [.object session.library] := .start
  have uses : call.Uses [.object session.library] := trivial
  have meets : call.Meets .allFinite := by
    have literal : ∀ x, code.node = .number x → x.Finite := by
      rintro x ⟨⟩
      decide
    exact Code.Finite.of_leaf rfl literal
  -- The program and the expression are all that is carried out.
  have modest : (call.action session).Modest .allFinite session start := by
    rintro above task s size moment ⟨d, v, b, rfl, -⟩
    obtain ⟨a, -, ⟨-, ⟨⟩, -⟩ | ⟨inner, -, -, moment⟩ | ⟨_, _, _, -, moment⟩⟩ :=
      moment.cases_wait
    · obtain ⟨b, -, ⟨-, ⟨⟩, -⟩ | ⟨inner, -, -, moment⟩ | ⟨fuel, r, c, ends, moment⟩⟩ :=
        moment.cases_wait
      · cases moment with
        | step _ later => cases later
      · cases fuel with
        | zero => cases ends
        | succ fuel =>
          cases ends
          cases moment
    · cases moment
  have sources : ∀ s : State, ∀ c, session.Source .onlyEmpty [] s.imports c → c.Finite := by
    intro s c source
    cases source with
    | program mem => cases mem
    | imported _ _ _ _ program => cases program
    | external mem => cases mem
    | argument mem => cases mem
  obtain ⟨s, ends⟩ : ∃ s, (Task.program code).run session 9
      { start with stack := ⟨[⟨code.location, .main⟩], 499⟩ }
        = some (.ok (.number (.ofNat 1)), s) := ⟨_, rfl⟩
  have held : call.AtHand session [.object session.library] start s (.value (.number (.ofNat 1))) :=
    .ended (.asked rfl) ends List.mem_cons_self
  exact ⟨prepared, appends, history, uses, meets, modest, s, sources s, held,
    numbers_finite prepared appends history uses (List.forall_mem_singleton.mpr meets)
      (List.forall_mem_singleton.mpr modest) (sources s) held .refl⟩

end Jsonnet
