import Jsonnet.Proofs.Twins

/-!
# Scope safety

If every variable of every program, imported file and external code is bound around it or is
the library, no evaluation breaks a rule that a front end checks: no variable is unknown, no
slot is read before it exists or is bound, and no builtin gets the wrong number of arguments.
If `self` and `super` stand in the members of objects only, there always is an object for
them. One interpreter may evaluate programs one after the other, and some of them may fail.
-/

namespace Jsonnet

/-! ### Evaluating programs one after the other -/

/-- The states that a session comes to by evaluating programs one after the other, the last
one first. A program may fail. Programs are compiled in between, which adds names. -/
inductive Session.Evaluates (session : Session) (start : State) : List Code → State → Prop where
  | start : Evaluates session start [] start
  | names {programs : List Code} {a : State} {names : Interner}
      (before : Evaluates session start programs a) (le : a.names ≤ names) :
    Evaluates session start programs { a with names }
  | program {programs : List Code} {a : State} {code : Code} {fuel : Nat} {x : Outcome String}
      (before : Evaluates session start programs a)
      (run : code.output.run session fuel a = some x) :
    Evaluates session start (code :: programs) x.2

/-- The codes that may be evaluated: the programs, and whatever the files that were imported
and the codes that are given from outside are compiled to. -/
inductive Session.Source (session : Session) (start : Interner) (programs : List Code)
    (imports : ImportCache Deferred) : Code → Prop where
  | program {code : Code} (mem : code ∈ programs) : Source session start programs imports code
  | imported {key : String × String} {entry : ImportEntry Deferred} {file : ImportedFile}
      {names : Interner} {code : Code} (mem : imports.entries[key]? = some entry)
      (compiled : entry.code.isSome) (answer : entry.answer = .ok file) (le : start ≤ names)
      (program : (session.frontEnd names file.foundAt file.content).1 = .program code) :
    Source session start programs imports code
  | external {name : Name} {source : String} {names : Interner} {code : Code}
      (mem : (name, .code source) ∈ session.externals) (le : start ≤ names)
      (program : (session.frontEnd names s!"<extvar:{names.lookup name}>" source).1
        = .program code) :
    Source session start programs imports code
  | argument {name : Name} {source : String} {names : Interner} {code : Code}
      (mem : (name, .code source) ∈ session.arguments) (le : start ≤ names)
      (program : (session.frontEnd names s!"<top-level-arg:{names.lookup name}>" source).1
        = .program code) :
    Source session start programs imports code

section

variable {τ : Terms} {session : Session} {start : Interner} {programs : List Code} {a : State}

/-- The library is in scope of a file. -/
theorem Session.base_binds (session : Session) {name : Name} (h : name = session.libraryName) :
  session.base.scope.Binds name
  := by
  have hbinds : (Scope.empty.bindValues
      ([session.libraryName].zip [.ready (.object session.library)])).Binds name :=
    Scope.binds_bindValues rfl (.inl (List.mem_singleton.mpr h))
  exact hbinds

/-- The states between evaluations are in step with themselves. -/
theorem Session.Evaluates.inv (exact : τ.exact) (housed : τ.housed → τ.closed) (hknown : ¬ τ.known)
    (prepared : session.Prepared start) {limit : Nat}
    (h : session.Evaluates (.new start limit) programs a) (closed : session.Closed τ start)
    (hfits : ∀ code ∈ programs, code.FitsIn τ session.base)
    (hwithin : Twins.Within τ session start a) :
  ∃ w : LevelWorld τ, Twins.Inv session start w a a
  := by
  have hC : (Twins.comparison τ session session start).Lawful :=
    Twins.lawful_comparison exact housed (.refl session) rfl (fun _ => closed) (absurd · hknown)
  induction h with
  | start => exact ⟨_, Twins.outset_inv τ prepared limit⟩
  | names before le ih =>
    obtain ⟨w, inv⟩ := ih hfits hwithin
    exact ⟨w, inv.change { inv.twin with names := rfl } (fun _ => le) le_rfl le_rfl⟩
  | @program programs a code fuel x before run ih =>
    obtain ⟨fuel', hx⟩ := Action.run_iff.mp ⟨fuel, run⟩
    obtain ⟨w, inv⟩ := ih (fun code hcode => hfits code (List.mem_cons_of_mem _ hcode))
      (hC.within.grows (Progress.grows Task.grows hx) hwithin)
    obtain ⟨z, hz, hends⟩ := Twins.runs exact hC inv rfl
      (Twins.output_related hknown inv (hfits code List.mem_cons_self)) hx hwithin
    cases Progress.resolve_unique hx hz
    obtain ⟨-, w', -, inv'⟩ := Twins.ends_same exact hends
    exact ⟨w', inv'⟩

/-- An evaluation fails only in ways that the terms allow. -/
theorem Session.Evaluates.allows (exact : τ.exact) (housed : τ.housed → τ.closed)
    (hknown : ¬ τ.known)
    (prepared : session.Prepared start) {limit : Nat}
    (h : session.Evaluates (.new start limit) programs a) (closed : session.Closed τ start)
    {code : Code} (hfits : ∀ program ∈ code :: programs, program.FitsIn τ session.base) {fuel : Nat}
    {x : Outcome String} (run : code.output.run session fuel a = some x)
    (hwithin : Twins.Within τ session start x.2) {failure : Failure} (hfailure : x.1 = .error failure) :
  τ.Allows failure
  := by
  have hC : (Twins.comparison τ session session start).Lawful :=
    Twins.lawful_comparison exact housed (.refl session) rfl (fun _ => closed) (absurd · hknown)
  obtain ⟨fuel', hx⟩ := Action.run_iff.mp ⟨fuel, run⟩
  obtain ⟨w, inv⟩ := h.inv exact housed hknown prepared closed
    (fun program hprogram => hfits program (List.mem_cons_of_mem _ hprogram))
    (hC.within.grows (Progress.grows Task.grows hx) hwithin)
  obtain ⟨z, hz, hends⟩ := Twins.runs exact hC inv rfl
    (Twins.output_related hknown inv (hfits code List.mem_cons_self)) hx hwithin
  obtain ⟨outcome, b⟩ := x
  cases hfailure
  cases hends with
  | error fails sound => exact fails.allowed
  | overflow cramped => exact absurd trivial cramped

end

/-! ### Codes that refer to what is there -/

/-- The terms of runs in which every variable is bound, and maybe every `self` and `super` has
an object. -/
def Terms.scopedIn (housed : Prop) : Terms := ⟨True, True, housed, False⟩

section

variable {session : Session} {start : Interner} {programs : List Code} {a : State}
  {imports : ImportCache Deferred} {housed : Prop}

/-- Sources that refer to the library and to what they bind fit in the scope of a file. -/
theorem Session.Source.fitsIn
    (bound : ∀ code, session.Source start programs imports code →
      code.Bound (· = session.libraryName))
    (hhoused : housed → ∀ code, session.Source start programs imports code → code.Housed)
    {code : Code} (h : session.Source start programs imports code) :
  code.FitsIn (.scopedIn housed) session.base
  where
  bound _ := (bound code h).mono fun _ => session.base_binds
  housed hin _ := hhoused hin code h

end

/-- If every variable of the programs and of all codes that come from outside is bound around
it or is the library, no evaluation on an interpreter that was made for them fails in an
internal way, as long as slots have numbers of their own. If moreover every `self` and `super`
stands in a member of an object literal, there always is an object for it. -/
theorem Setup.evaluates_safely (setup : Setup) (names : Interner)
    (appends : setup.frontEnd.Appends) {programs : List Code} {a : State}
    (before : (setup.start names).1.Evaluates (setup.start names).2 programs a) {code : Code}
    {fuel : Nat} {x : Outcome String}
    (run : code.output.run (setup.start names).1 fuel a = some x) (hasSlots : x.2.HasSlots)
    (bound : ∀ source, (setup.start names).1.Source (setup.start names).2.names (code :: programs)
      x.2.imports source → source.Bound (· = (setup.start names).1.libraryName)) :
  (∀ message, x.1 ≠ .error (.internal message)) ∧
    ((∀ source, (setup.start names).1.Source (setup.start names).2.names (code :: programs)
        x.2.imports source → source.Housed) →
      ∀ trace, x.1 ≠ .error (.runtime .selfOutsideObject trace) ∧
        x.1 ≠ .error (.runtime .superOutsideObject trace))
  := by
  have happends : (setup.start names).1.frontEnd.Appends := setup.start_frontEnd names ▸ appends
  obtain ⟨session, start, heq, prepared⟩ := setup.exists_start names
  rw [heq] at happends before run bound ⊢
  dsimp only at happends before run bound ⊢
  have hnames : (State.new start setup.settings.maxStack).names = start := rfl
  rw [hnames] at bound ⊢
  have allows : ∀ {housed : Prop} {failure : Failure}, (housed → ∀ source,
      session.Source start (code :: programs) x.2.imports source → source.Housed) →
      x.1 = .error failure → (Terms.scopedIn housed).Allows failure := by
    intro housed failure hhoused hfailure
    have hfits : ∀ {source}, session.Source start (code :: programs) x.2.imports source →
        source.FitsIn (.scopedIn housed) session.base := Session.Source.fitsIn bound hhoused
    refine before.allows trivial (fun _ => trivial) id prepared ?_ ?_ run ?_ hfailure
    · refine ⟨happends, ?_, ?_⟩
      · intro name source mem names code le program
        exact hfits (.external mem le program)
      · intro name source mem names code le program
        exact hfits (.argument mem le program)
    · intro program mem
      exact hfits (.program mem)
    · intro _
      refine ⟨hasSlots, ?_⟩
      intro key entry file mem compiled answer names code le program
      exact hfits (.imported mem compiled answer le program)
  constructor
  · intro message hfailure
    exact @allows False _ False.elim hfailure trivial
  · intro hhoused trace
    constructor
    · intro hfailure
      exact @allows True _ (fun _ => hhoused) hfailure trivial
    · intro hfailure
      exact @allows True _ (fun _ => hhoused) hfailure trivial

/-- The only variable of the program stands where it is bound. -/
theorem Code.bound_localNull (P : Name → Prop) :
  Code.localNull.Bound P ∧ Code.localNull.Housed
  := by
  have hplaces : ∀ place, localNull.arena.Reaches localNull.root place →
      place.id = ⟨2⟩ ∨ place.id = ⟨0⟩ ∨ (place.id = ⟨1⟩ ∧ .empty ∈ place.names) := by
    intro place path
    induction path with
    | root => exact .inl rfl
    | @step place next path hnext ih =>
      obtain hid | hid | ⟨hid, -⟩ := ih <;> rw [hid] at hnext
      · have hbelow : next ∈ [⟨[.empty], false, ⟨1⟩⟩, ⟨[.empty], false, ⟨0⟩⟩] := hnext
        obtain rfl | hbelow := List.mem_cons.mp hbelow
        · exact .inr (.inr ⟨rfl, List.mem_cons_self⟩)
        · cases List.mem_singleton.mp hbelow
          exact .inr (.inl rfl)
      · cases hnext
      · cases hnext
  constructor
  · intro place path name hname
    obtain hid | hid | ⟨hid, hmem⟩ := hplaces place path <;> rw [hid] at hname <;> cases hname
    exact .inl hmem
  · intro place path hself
    obtain hid | hid | ⟨hid, -⟩ := hplaces place path <;> rw [hid] at hself <;> cases hself

/-- A program with a variable is evaluated safely twice, one time after the other. -/
theorem Setup.evaluates_safely_twice :
  ∃ fuel, ∃ x y : Outcome String,
    (bare.start .onlyEmpty).1.Evaluates (bare.start .onlyEmpty).2 [.localNull] x.2 ∧
    Code.localNull.output.run (bare.start .onlyEmpty).1 fuel x.2 = some y ∧ y.2.HasSlots ∧
    (∀ source, (bare.start .onlyEmpty).1.Source (bare.start .onlyEmpty).2.names
      [.localNull, .localNull] y.2.imports source →
        source.Bound (· = (bare.start .onlyEmpty).1.libraryName)) ∧
    (∀ message, y.1 ≠ .error (.internal message)) ∧
      ((∀ source, (bare.start .onlyEmpty).1.Source (bare.start .onlyEmpty).2.names
          [.localNull, .localNull] y.2.imports source → source.Housed) →
        ∀ trace, y.1 ≠ .error (.runtime .selfOutsideObject trace) ∧
          y.1 ≠ .error (.runtime .superOutsideObject trace))
  := by
  have hruns : ∃ x y, Code.localNull.output.run (bare.start .onlyEmpty).1 60
        (bare.start .onlyEmpty).2 = some x ∧
      Code.localNull.output.run (bare.start .onlyEmpty).1 60 x.2 = some y ∧
      y.2.slots.size = 2 ∧ y.2.imports = .empty := by
    have hsharing := bare.start_sharing .onlyEmpty
    obtain ⟨session, start, heq, -⟩ := bare.exists_start .onlyEmpty
    rw [heq] at hsharing ⊢
    obtain ⟨_, sharing, _, _, _, _, _, _, _, _, _⟩ := session
    cases hsharing
    refine ⟨_, _, rfl, rfl, ?_, ?_⟩ <;> rfl
  obtain ⟨x, y, hx, hy, hsize, himports⟩ := hruns
  have before : (bare.start .onlyEmpty).1.Evaluates (bare.start .onlyEmpty).2 [.localNull] x.2 :=
    .program .start hx
  have hasSlots : y.2.HasSlots := by
    rw [State.HasSlots, hsize]
    decide
  have bound : ∀ source, (bare.start .onlyEmpty).1.Source (bare.start .onlyEmpty).2.names
      [.localNull, .localNull] y.2.imports source →
      source.Bound (· = (bare.start .onlyEmpty).1.libraryName) := by
    obtain ⟨hexternals, harguments⟩ := bare.start_given .onlyEmpty rfl rfl
    intro source h
    cases h with
    | program mem =>
      obtain rfl : source = .localNull := by simpa using mem
      exact (Code.bound_localNull _).1
    | imported mem =>
      rw [himports, ImportCache.empty, Std.HashMap.getElem?_empty] at mem
      cases mem
    | external mem =>
      rw [hexternals] at mem
      cases mem
    | argument mem =>
      rw [harguments] at mem
      cases mem
  exact ⟨60, x, y, before, hy, hasSlots, bound,
    evaluates_safely bare .onlyEmpty (fun names _ _ => le_rfl) before hy hasSlots bound⟩

end Jsonnet
