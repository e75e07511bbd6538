import Jsonnet.Proofs.ParallelRuns
import Jsonnet.Proofs.ScopeSafety

/-!
# Runs in parallel with themselves

A run goes in parallel with itself if its codes are of a kind with themselves. This says something
about the run, as far as the kind says something about the codes.
-/

namespace Jsonnet

/-! ### Codes of a kind with themselves -/

/-- Whether a code is of a kind with itself, where names stand for themselves. -/
def Kinship.Selves (κ : Kinship) (code : Code) : Prop :=
  ∀ ν : Name → Name → Prop, (∀ n, ν n n) → κ.code ν (fun _ => True) code code

/-- Whether all programs that a front end compiles texts to have a property. -/
def FrontEnd.Compiles (frontEnd : FrontEnd) (P : Code → Prop) : Prop :=
  ∀ names file source code, (frontEnd names file source).1 = .program code → P code

/-- Two runs with the same interner and the same front end, in which names stand for themselves. -/
def Accord.itself (κ : Kinship) (ordered : ¬ κ.reorders) {frontEnd : FrontEnd}
    (selves : frontEnd.Compiles κ.Selves) : Accord κ frontEnd frontEnd where
  holds ν m m' := m = m' ∧ ∀ n n', ν n n' ↔ n = n'
  room _ := True
  room_mono _ _ := trivial
  appends := .inr fun _ => trivial
  text := by
    rintro ν m _ n n' ⟨rfl, hν⟩ hn
    rw [(hν n n').mp hn]
  gives allowed := absurd allowed ordered
  intern := by
    rintro w m _ s ⟨rfl, hw⟩ -
    cases h : m.tryIntern s with
    | error e => exact .inl ⟨e, rfl, rfl⟩
    | ok result => exact .inr ⟨_, _, _, _, w, rfl, rfl, .refl w, ⟨rfl, hw⟩, (hw _ _).mpr rfl⟩
  compile := by
    rintro w m _ file source ⟨rfl, hw⟩ -
    refine ⟨w, .refl w, ⟨rfl, hw⟩, ?_⟩
    have same : ∀ l : Location, l.Akin w.name l := fun l => ⟨(hw _ _).mpr rfl, rfl⟩
    cases h : (frontEnd m file source).1 with
    | program code => exact .program (selves _ _ _ _ h w.name fun n => (hw n n).mpr rfl)
    | rejected error =>
      obtain ⟨message, location⟩ := error
      refine .rejected message ?_
      cases location with
      | none => exact .none
      | some l => exact .some (same l)
    | broken message => exact .broken message

/-- The bond in which names stand for themselves and nothing is live. -/
def Bond.outset : Bond where
  name := Eq
  thunk _ := False
  slot _ := False
  empty := rfl
  left_unique h h' := h.trans h'.symm
  right_unique h h' := h.symm.trans h'

section

variable {ν : Name → Name → Prop} {f f' : Failure}

theorem Failure.Akin.eq (hν : ∀ n n', ν n n' → n = n') (h : f.Akin ν f') :
  f = f'
  := by
  cases h with
  | runtime cause trace => rfl
  | internal message => rfl
  | breakdown message => rfl
  | static message location =>
    cases location with
    | none => rfl
    | @some l l' hl =>
      obtain ⟨file, span⟩ := l
      obtain ⟨file', span'⟩ := l'
      obtain ⟨hfile, rfl⟩ := hl
      cases hν _ _ hfile
      rfl

theorem Failure.Akin.refl (hν : ∀ n, ν n n) (f : Failure) :
  f.Akin ν f
  := by
  cases f with
  | runtime cause trace => exact .runtime cause trace
  | internal message => exact .internal message
  | breakdown message => exact .breakdown message
  | static error =>
    obtain ⟨message, location⟩ := error
    refine .static message ?_
    cases location with
    | none => exact .none
    | some l => exact .some ⟨hν _, rfl⟩

end

/-! ### States between evaluations -/

/-- The states that two runs end in are akin, whatever the runs come to. -/
theorem Accord.Ends.state {κ : Kinship} {first second : FrontEnd} {A : Accord κ first second}
    {w : Bond} {α β : Type} {R : Bond → α → β → Prop} {x : Outcome α} {y : Outcome β}
    (h : A.Ends R w x y) :
  ∃ w', w ≤ w' ∧ A.Meets w' x.2 y.2
  := by
  cases h with
  | ok le meets => exact ⟨_, le, meets⟩
  | error le meets => exact ⟨_, le, meets⟩

/-- The states between evaluations are akin to themselves, if the codes are of a kind with
themselves. -/
theorem Session.Evaluates.meets {κ : Kinship} (ordered : ¬ κ.reorders) {setup : Setup}
    (selves : setup.frontEnd.Compiles κ.Selves) {names : Interner} {programs : List Code} {a : State}
    (h : (setup.start names).1.Evaluates (setup.start names).2 programs a)
    (hprograms : ∀ code ∈ programs, κ.Selves code) (hasSlots : κ.dead → a.HasSlots) :
  ∃ w, (setup.start names).1.Akin κ w (setup.start names).1 ∧
    (Accord.itself κ ordered selves).Meets w a a
  := by
  induction h with
  | start =>
    obtain ⟨w, hle, holds, akin, sessions⟩ := Setup.start_akin (Accord.itself κ ordered selves)
      (w := .outset) (fun _ => id) (fun _ => id) ⟨rfl, fun _ _ => Iff.rfl⟩ trivial
    exact ⟨w, sessions, holds, akin⟩
  | names before le ih =>
    obtain ⟨w, sessions, meets⟩ := ih hprograms hasSlots
    exact ⟨w, sessions, ⟨rfl, meets.holds.2⟩, meets.akin.setNames _ _⟩
  | @program programs a code fuel x before run ih =>
    obtain ⟨n, hn⟩ := Action.run_iff.mp ⟨fuel, run⟩
    obtain ⟨w, sessions, meets⟩ := ih (fun code h => hprograms code (List.mem_cons_of_mem _ h))
      fun dead => (Progress.grows Task.grows hn).hasSlots (hasSlots dead)
    have hcode := hprograms code List.mem_cons_self w.name fun n => (meets.holds.2 n n).mpr rfl
    have hfront := setup.start_frontEnd names
    obtain ⟨fuel', y, hy, hends⟩ := (Accord.itself κ ordered selves).output hfront hfront sessions meets
      hcode run ⟨trivial, hasSlots⟩
    obtain ⟨n', hn'⟩ := Action.run_iff.mp ⟨fuel', hy⟩
    cases Progress.resolve_unique hn hn'
    obtain ⟨w', le, meets'⟩ := hends.state
    exact ⟨w', sessions.mono le, meets'⟩

end Jsonnet
