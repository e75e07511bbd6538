import Jsonnet.Proofs.Agreement
import Jsonnet.Proofs.Depths
import Jsonnet.Proofs.FullSlots
import Jsonnet.Proofs.Independence

/-!
# Keeping results is transparent

Whatever text a program comes to where no results are kept, it comes to where thunks, fields,
imports and external values are computed once and kept, with the same room for frames. It must not
reserve more slots than there are numbers, nor read a field to the right of which more literals
stand than can be counted: past either number the two ways of running a program part.
-/

namespace Jsonnet

namespace Agreement

variable {session : Session} {names : Interner} (h : session.Prepared names)

/-- The stage at which a new run begins beside another one, in which nothing but the library and
the names stands for anything. -/
def outset (O' : Origins) : Stage where
  world := {
    toPairing := { Pairing.nothing .loose with
      name := names.Knows
      object := fun o p => o = session.library ∧ p = session.library
      self := fun o p => o = session.library ∧ p = session.library }
    object_of_self := id
    alike := by
      rintro o p ⟨rfl, rfl⟩
      exact h.library_alike fun _ hn => hn.knows }
  left := ⟨[], [session.library]⟩
  right := O'

/-- A new state and what it stems from. -/
theorem new_stems (session : Session) (names : Interner) (limit : Nat) (library : Object) :
  (State.new names limit).Stems session ⟨[], [library]⟩
  where
  thunks := rfl
  objects := rfl
  answers directory path entry hentry := by
    rw [State.new, ImportCache.empty, Std.HashMap.getElem?_empty] at hentry
    cases hentry
  code directory path deferred hcode := by
    rw [State.new, ImportCache.code?, ImportCache.empty, Std.HashMap.getElem?_empty] at hcode
    cases hcode
  external name deferred hdeferred := by
    rw [State.new, Std.HashMap.getElem?_empty] at hdeferred
    cases hdeferred

/-- In a new state nothing is kept. -/
theorem new_confirmed (session : Session) (names : Interner) (limit : Nat) (library : Object) :
  (State.new names limit).Confirmed session ⟨[], [library]⟩
  where
  stems := new_stems session names limit library
  hasSlots := Nat.zero_le _
  pending h := by cases h
  ready h := by cases h
  field h := by
    rw [State.new, Std.HashMap.getElem?_empty] at h
    cases h
  passed {p} _ _ hpassed := by
    obtain ⟨_, heq⟩ := Array.getElem?_eq_some_iff.mp hpassed
    simp [State.new] at heq

include h in
theorem outset_inv {k : Leeway} (hfixed : ¬ k.fixed) {O' : Origins} {b : State}
    (confirmed : b.Confirmed session O') (hlibrary : O'.objects[0]? = some session.library)
    (hnames : b.names = names) (hslots : b.slots.size ≤ k.slots) (limit : Nat) :
  Inv session k (outset h O') (.new names limit) b
  := by
  have hsettled : ∀ a, session.library.isSettled a = true := by
    intro a
    rw [Object.isSettled, h.library_hasAsserts]
    rfl
  have stems := new_stems session names limit session.library
  refine ⟨⟨⟨⟨?_, ?_, ?_, ?_, ⟨rfl, rfl⟩, stems, confirmed.stems⟩, rfl, ?_⟩,
    confirmed, ?_, ?_, ?_, ?_⟩, ?_⟩
  · intro n hn
    exact ⟨hn, hnames ▸ hn⟩
  · intro t t' ht
    exact ht.elim
  · intro i j hi
    exact hi.elim
  · rintro o p ⟨rfl, rfl⟩
    rw [h.library_id]
    exact ⟨rfl, hlibrary⟩
  · rintro o p ⟨rfl, rfl⟩
    exact hsettled _
  · exact ⟨hnames.ge, fun h => absurd h hfixed, fun _ => hnames.symm⟩
  · rintro o p ⟨rfl, rfl⟩ hpassed
    rw [h.library_id] at hpassed
    cases hpassed
  · rintro o p p' ⟨rfl, rfl⟩ ⟨-, rfl⟩
    rfl
  · exact hslots.trans (Nat.le_add_left _ _)
  · rintro o p ⟨rfl, rfl⟩ -
    exact hsettled _

end Agreement

/-- In a new state no check goes on. -/
theorem State.new_idle (names : Interner) (limit i : Nat) :
  (State.new names limit).checks[i]? ≠ some .inProgress
  := by
  intro hcheck
  obtain ⟨_, heq⟩ := Array.getElem?_eq_some_iff.mp hcheck
  simp [State.new] at heq

/-! ### Runs that the reference evaluator completes -/

/-- Whether the fields that are evaluated while an action is carried out to its end belong to
literals whose depth is counted exactly. -/
def Action.CountsLiterals {α : Type} (session : Session) (action : Action α) (a : State) : Prop :=
  ∀ fuel x, (action session).resolve session (Task.perform session fuel) a = some x →
    ∀ key, Event.begins (.field key) ∈ (action session).events session (Task.perform session fuel)
      (Task.events session fuel) a → key.depth < maxLeaves

/-- The events of one run to the end are those of all. -/
theorem Action.CountsLiterals.of_events {α : Type} {session : Session} {action : Action α} {a : State}
    {fuel : Nat} {x : Outcome α} {events : List Event}
    (hx : (action session).resolve session (Task.perform session fuel) a = some x)
    (hevents : (action session).events session (Task.perform session fuel)
      (Task.events session fuel) a = events)
    (counts : ∀ key, Event.begins (.field key) ∈ events → key.depth < maxLeaves) :
  action.CountsLiterals session a
  := by
  intro fuel' y hy key hkey
  obtain hle | hle := le_total fuel fuel'
  · rw [Progress.events_le hle hx, hevents] at hkey
    exact counts key hkey
  · rw [← Progress.events_le hle hy, hevents] at hkey
    exact counts key hkey

/-- An action that comes to an outcome with some slot numbers to spare, and without an overflow of
the stack. -/
structure Action.Completes {α : Type} (action : Action α) (session : Session) (spare : Nat)
    (a : State) (x : Outcome α) : Prop where
  run : ∃ fuel, action.run session fuel a = some x
  noOverflow : ∀ failure, x.1 = .error failure → failure.isOverflow = false
  slots : x.2.slots.size + spare ≤ maxSlot + 1
  counts : action.CountsLiterals session a

theorem Action.Completes.mono {α : Type} {action : Action α} {session : Session} {spare spare' : Nat}
    {a : State} {x : Outcome α} (h : action.Completes session spare a x) (hle : spare' ≤ spare) :
  action.Completes session spare' a x
  := { h with slots := (Nat.add_le_add_left hle _).trans h.slots }

/-- What the reference evaluator completes, an evaluator that keeps results comes to the end of as
well, if it is asked for the same while no check goes on. -/
theorem Agreement.Inv.carries {reference memo : Session} (agrees : reference.Agrees memo)
    (lawful : reference.frontEnd.Lawful) (hsharing : reference.sharing = false)
    (hsharing' : memo.sharing = true) {k : Leeway} {s : Stage} {a b : State}
    (inv : Inv reference k s a b) (idle : ∀ i : Nat, b.checks[i]? ≠ some .inProgress)
    (room : k.roomy → a.stack.room ≤ b.stack.room) {α β : Type} {R : World .loose → α → β → Prop}
    {action : Action α} {action' : Action β}
    (related : Action.Related reference memo R s.world action action') {x : Outcome α}
    (completes : action.Completes reference k.slots a x) (names : x.2.names ≤ k.names) :
  ∃ fuel y, action'.run memo fuel b = some y ∧ (comparison reference memo k).Ends R s x y
  := by
  have hC : (comparison reference memo k).Lawful := lawful_comparison agrees lawful hsharing hsharing'
  obtain ⟨fuel, hx⟩ := Action.run_iff.mp completes.run
  have opens : Opens reference (Within k) fuel s b :=
    ⟨inv.confirmed.stems.objects.le, fun p _ _ hcheck => absurd hcheck (idle p.id.index)⟩
  obtain ⟨y, hy, hends⟩ := hC.carries (hC.carriesTask fuel) (w := s) related
    ⟨inv, opens, room, False.elim⟩ hx ⟨⟨names, completes.slots⟩, fun _ => completes.noOverflow⟩
    (fun e he key heq => completes.counts fuel x hx key (heq ▸ he)) False.elim
  obtain ⟨fuel, run⟩ := Action.run_iff.mpr ⟨fuel, hy⟩
  exact ⟨fuel, y, run, hends⟩

/-- If a program comes to a text in a new session in which no results are kept, it comes to the
same text in a new session in which results are kept, with the same room for frames. -/
theorem Setup.evaluates_like_reference (setup : Setup) (lawful : setup.frontEnd.Lawful)
    {names later : Interner} (le : (setup.start names).2.names ≤ later) {code : Code}
    (named : code.Named later.Knows) {fuel : Nat} {text : String} {a : State}
    (run : code.output.run (({ setup with sharing := false } : Setup).start names).1 fuel
      (.new later setup.settings.maxStack) = some (.ok text, a))
    (hasSlots : a.HasSlots)
    (counts : code.output.CountsLiterals (({ setup with sharing := false } : Setup).start names).1
      (.new later setup.settings.maxStack)) :
  ∃ fuel b, code.output.run (({ setup with sharing := true } : Setup).start names).1 fuel
    (.new later setup.settings.maxStack) = some (.ok text, b)
  := by
  rw [Setup.start_keeping] at run counts ⊢
  have lawful : (setup.start names).1.frontEnd.Lawful := setup.start_frontEnd names ▸ lawful
  obtain ⟨session, start, heq, prepared⟩ := setup.exists_start names
  rw [heq] at le run counts lawful ⊢
  let reference : Session := { session with sharing := false }
  let memo : Session := { session with sharing := true }
  have prepared : reference.Prepared later :=
    ⟨(prepared.mono le).library, (prepared.mono le).arguments⟩
  have agrees : reference.Agrees memo := ⟨rfl, rfl, rfl, rfl, rfl, rfl, rfl, rfl, rfl⟩
  let s := Agreement.outset prepared ⟨[], [reference.library]⟩
  have inv : Agreement.Inv reference ⟨a.names, False, 0, True⟩ s
      (.new later setup.settings.maxStack) (.new later setup.settings.maxStack) :=
    Agreement.outset_inv prepared id (Agreement.new_confirmed _ _ _ _) rfl rfl le_rfl _
  have base : Alike s.world.toPairing (.env reference.base) (.env reference.base) :=
    base_alike ⟨rfl, rfl⟩
  have related : Action.Related reference memo Same s.world code.output code.output :=
    Action.Related.inFrame Terms.agrees_rfl (.output named ⟨False.elim, False.elim⟩ base
      fun given h => (prepared.arguments given h).knows)
  have completes : code.output.Completes reference 0 (.new later setup.settings.maxStack)
      (.ok text, a) :=
    ⟨⟨fuel, run⟩, (fun _ h => by cases h), hasSlots, counts⟩
  obtain ⟨fuel, ⟨outcome, b⟩, run', hends⟩ := inv.carries agrees lawful rfl rfl
    (State.new_idle later _) (fun _ => le_rfl) related completes le_rfl
  cases hends with
  | overflow cramped => exact absurd trivial cramped
  | ok w' le inv result =>
    cases result
    exact ⟨fuel, b, run'⟩

/-- The program that binds a variable to null mentions the empty name only. -/
theorem Code.named_localNull {P : Name → Prop} (h : P .empty) :
  Code.localNull.Named P
  where
  file := h
  node node hnode := by
    simp only [localNull, List.mem_toArray, List.mem_cons, List.not_mem_nil, or_false] at hnode
    obtain rfl | rfl | rfl := hnode
    · trivial
    · exact h
    · trivial
  bind bind hbind := by
    simp only [localNull, List.mem_toArray, List.mem_singleton] at hbind
    cases hbind
    exact h
  param name hname := by
    simp [localNull] at hname

/-- The program that binds a variable to null comes to the same text in both ways. -/
theorem Setup.evaluates_like_reference_of_local :
  let reference := (({ bare with sharing := false } : Setup).start .onlyEmpty).1
  let memo := (({ bare with sharing := true } : Setup).start .onlyEmpty).1
  let names := (bare.start .onlyEmpty).2.names
  ∃ fuel a, bare.frontEnd.Lawful ∧ names ≤ names ∧ Code.localNull.Named names.Knows ∧
    Code.localNull.output.run reference fuel (.new names bare.settings.maxStack)
      = some (.ok "null\n", a) ∧
    a.HasSlots ∧
    Code.localNull.output.CountsLiterals reference (.new names bare.settings.maxStack) ∧
    ∃ fuel b, Code.localNull.output.run memo fuel (.new names bare.settings.maxStack)
      = some (.ok "null\n", b)
  := by
  intro reference memo names
  have lawful : bare.frontEnd.Lawful :=
    ⟨fun _ _ _ => le_rfl, (fun _ _ _ _ h => by cases h), fun _ _ _ _ _ => rfl⟩
  have named : Code.localNull.Named names.Knows :=
    Code.named_localNull (Interner.gives_empty _).knows
  have hends : ((Code.localNull.output reference).resolve reference (Task.perform reference 6)
      (.new names bare.settings.maxStack)).map (fun x => (x.1.toOption, x.2.slots.size))
        = some (some "null\n", 1) := by decide +kernel
  have hevents : (Code.localNull.output reference).events reference (Task.perform reference 6)
      (Task.events reference 6) (.new names bare.settings.maxStack)
        = [.begins (.thunk ⟨0⟩), .succeeds (.thunk ⟨0⟩)] := by decide +kernel
  obtain ⟨⟨outcome, a⟩, hrun, houtcome⟩ := Option.map_eq_some_iff.mp hends
  obtain ⟨htext, hsize⟩ := Prod.mk.inj houtcome
  cases outcome with
  | error failure => cases htext
  | ok text =>
    cases htext
    have hasSlots : a.HasSlots := by
      rw [State.HasSlots, hsize]
      decide
    have counts : Code.localNull.output.CountsLiterals reference
        (.new names bare.settings.maxStack) :=
      .of_events hrun hevents (by simp)
    obtain ⟨fuel, run⟩ := Action.run_iff.mpr ⟨6, hrun⟩
    exact ⟨fuel, a, lawful, le_rfl, named, run, hasSlots, counts,
      evaluates_like_reference bare lawful le_rfl named run hasSlots counts⟩

/-- Both numbers have to suffice. A program that reserves more slots than there are numbers when no
results are kept, and one with fields so far to the left that their depths are not told apart, come
to another text without results that are kept than with them. -/
theorem Setup.reference_differs_past_numbers :
  let reference := (({ bare with sharing := false } : Setup).start .onlyEmpty).1
  let memo := (({ bare with sharing := true } : Setup).start .onlyEmpty).1
  let flag := (bare.start .onlyEmpty).2.names.intern "flag"
  let other := flag.2.intern "other"
  let start := State.new other.2 bare.settings.maxStack
  let levels : Code := ⟨.levels 32 other.1, ⟨38⟩⟩
  let doublings : Code := ⟨.doublings 32 flag.1 other.1, ⟨48⟩⟩
  bare.frontEnd.Lawful ∧ (bare.start .onlyEmpty).2.names ≤ other.2 ∧
    (levels.Named other.2.Knows ∧
      (∃ fuel a, levels.output.run reference fuel start = some (.ok "false\n", a)) ∧
      ∃ fuel b, levels.output.run memo fuel start = some (.ok "true\n", b)) ∧
    doublings.Named other.2.Knows ∧
      (∃ fuel a, doublings.output.run reference fuel start = some (.ok "false\n", a) ∧ a.HasSlots) ∧
      ∃ fuel b, doublings.output.run memo fuel start = some (.ok "true\n", b)
  := by
  intro reference memo flag other start levels doublings
  have lawful : bare.frontEnd.Lawful :=
    ⟨fun _ _ _ => le_rfl, (fun _ _ _ _ h => by cases h), fun _ _ _ _ _ => rfl⟩
  have le : (bare.start .onlyEmpty).2.names ≤ other.2 :=
    (Interner.le_intern _ "flag").trans (Interner.le_intern _ "other")
  -- the three names differ, since there is room for them
  have room : (bare.start .onlyEmpty).2.names.HasRoom ["flag", "other"] := by
    intro index
    have size := bare.size_start_le rfl rfl .onlyEmpty index
    have before := Interner.size_onlyEmpty_le index
    have count := List.countP_le_length (p := (Interner.shardOf · = index)) (l := ["flag", "other"])
    have functions : LibraryFunction.all.length = 19 := rfl
    rw [List.length_cons, List.length_singleton] at count
    rw [Name.maxPosition]
    omega
  have hflag : other.2.Numbers "flag" flag.1 := room.intern.2.mono (Interner.le_intern _ "other")
  have hother : other.2.Numbers "other" other.1 := room.intern.1.intern.2
  have hempty := other.2.numbers_empty
  have apart {s t : String} {n m : Name} (hs : other.2.Numbers s n) (ht : other.2.Numbers t m)
      (different : s ≠ t) : n ≠ m := by
    rintro rfl
    exact different (Option.some.inj (hs.string.symm.trans ht.string))
  have confuses (session : Session) :
      (∃ a, levels.output.Gives session start (toString session.sharing ++ "\n") a) ∧
        ∃ b, doublings.output.Gives session start (toString session.sharing ++ "\n") b ∧
          b.HasSlots := by
    constructor
    · obtain ⟨a, gives⟩ := Code.levels_confuses session
        (a := start.within ⟨levels.location, .main⟩) (apart hother hempty (by decide)) rfl (by decide)
      exact ⟨_, Code.output_gives_bool (by decide) gives⟩
    · obtain ⟨b, gives, steady⟩ := Code.doublings_confuses session session.base
        (a := start.within ⟨doublings.location, .main⟩) (apart hflag hempty (by decide))
        (apart hother hempty (by decide)) (apart hflag hother (by decide)) ⟨_, hflag⟩ ⟨_, hother⟩
        (fun _ => Std.HashMap.getElem?_empty) (by decide)
      refine ⟨_, Code.output_gives_bool (by decide) gives, ?_⟩
      change b.slots.size ≤ _
      rw [steady.slots]
      exact Nat.zero_le _
  have empty := hempty.knows
  obtain ⟨⟨a, first⟩, b, second, hasSlots⟩ := confuses reference
  obtain ⟨⟨c, third⟩, d, fourth, -⟩ := confuses memo
  obtain ⟨fuel, second⟩ := second
  exact ⟨lawful, le, ⟨Arena.named_levels empty hother.knows, first.imp fun _ run => ⟨a, run⟩,
      third.imp fun _ run => ⟨c, run⟩⟩,
    Arena.named_doublings empty hflag.knows hother.knows, ⟨fuel, b, second, hasSlots⟩,
    fourth.imp fun _ run => ⟨d, run⟩⟩

end Jsonnet
