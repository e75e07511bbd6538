import Mathlib.Tactic.Common
import Jsonnet.Proofs.Worlds

/-!
# New sessions

What a session starts with: a library of builtins, names that the interner has given out,
and a state in which nothing has been computed.
-/

namespace Jsonnet

/-- The members of the library are builtins, under names that are given out. -/
theorem libraryFields_given (names : Interner) (functions : List LibraryFunction) :
  names ≤ (libraryFields names functions).2 ∧
    ∀ field ∈ (libraryFields names functions).1, (libraryFields names functions).2.Gives field.1 ∧
      ∃ f, field.2.member = .ready (.function (.builtin (.library f)))
  := by
  induction functions generalizing names with
  | nil =>
    refine ⟨le_rfl, ?_⟩
    intro field h
    cases h
  | cons f rest ih =>
    obtain ⟨hle, hrest⟩ := ih (names.intern f.name).2
    rw [libraryFields]
    refine ⟨(names.le_intern _).trans hle, ?_⟩
    intro field h
    obtain rfl | h := List.mem_cons.mp h
    · exact ⟨(names.gives_intern _).mono hle, f, rfl⟩
    · exact hrest field h

/-- Values from outside are given under names that are given out. -/
theorem internExternals_given (names : Interner) (values : List (String × External)) :
  names ≤ (internExternals names values).2 ∧
    ∀ given ∈ (internExternals names values).1, (internExternals names values).2.Gives given.1
  := by
  induction values generalizing names with
  | nil =>
    refine ⟨le_rfl, ?_⟩
    intro given h
    cases h
  | cons value rest ih =>
    obtain ⟨hle, hrest⟩ := ih (names.intern value.1).2
    rw [internExternals]
    refine ⟨(names.le_intern _).trans hle, ?_⟩
    intro given h
    obtain rfl | h := List.mem_cons.mp h
    · exact (names.gives_intern _).mono hle
    · exact hrest given h

/-- What is given anew was given before or is the new value. -/
theorem mem_giveAnew {values : List (Name × External)} {entry given : Name × External}
    (h : given ∈ giveAnew values entry) :
  given ∈ values ∨ given = entry
  := by
  rw [giveAnew, List.mem_append, List.mem_singleton] at h
  exact h.imp_left List.mem_of_mem_filter

theorem mem_foldl_giveAnew {values entries : List (Name × External)} {given : Name × External}
    (h : given ∈ entries.foldl giveAnew values) :
  given ∈ values ∨ given ∈ entries
  := by
  induction entries generalizing values with
  | nil => exact .inl h
  | cons entry entries ih =>
    obtain h | h := ih h
    · obtain h | rfl := mem_giveAnew h
      · exact .inl h
      · exact .inr List.mem_cons_self
    · exact .inr (List.mem_cons_of_mem _ h)

/-- A session whose library is a literal of builtins, and whose names an interner has given
out. -/
structure Session.Prepared (session : Session) (names : Interner) : Prop where
  library : ∃ fields, session.library = .leaf ⟨⟨0⟩, .empty, fields, []⟩ ∧
    ∀ field ∈ fields, names.Gives field.1 ∧
      ∃ f, field.2.member = .ready (.function (.builtin (.library f)))
  arguments : ∀ given ∈ session.arguments, names.Gives given.1

namespace Session.Prepared

variable {session : Session} {names later : Interner}

theorem mono (h : session.Prepared names) (hle : names ≤ later) :
  session.Prepared later
  where
  library := by
    obtain ⟨fields, hlibrary, hfields⟩ := h.library
    exact ⟨fields, hlibrary, fun field hfield => (hfields field hfield).imp_left (·.mono hle)⟩
  arguments given hgiven := (h.arguments given hgiven).mono hle

/-- The library is alike to itself where the names that were given out are known. -/
theorem library_alike (h : session.Prepared names) {τ : Terms} {w : Pairing τ}
    (hname : ∀ n, names.Gives n → w.name n) :
  session.library.Alike w session.library
  := by
  obtain ⟨fields, hlibrary, hfields⟩ := h.library
  rw [hlibrary]
  apply Object.Alike.leaf
  refine ⟨.empty, rfl, rfl, fun field hfield => hname field.1 (hfields field hfield).1, ?_, ?_⟩
  · intro field hfield
    obtain ⟨-, f, hf⟩ := hfields field hfield
    rw [hf]
    exact .ready (.function (.builtin _))
  · intro member hmember
    cases hmember

/-- The library has no assertions. -/
theorem library_hasAsserts (h : session.Prepared names) :
  session.library.hasAsserts = false
  := by
  obtain ⟨fields, hlibrary, -⟩ := h.library
  rw [hlibrary]
  rfl

/-- The library is the first object. -/
theorem library_id (h : session.Prepared names) :
  session.library.id = ⟨0⟩
  := by
  obtain ⟨fields, hlibrary, -⟩ := h.library
  rw [hlibrary]
  rfl

end Session.Prepared

/-- A state in which nothing has been computed. -/
def State.new (names : Interner) (maxStack : Nat) : State where
  names := names
  stack := .new maxStack
  thunks := #[]
  slots := .empty
  checks := #[.notChecked]
  fields := ∅
  imports := .empty
  externals := ∅
  counters := .zero

namespace Setup

variable (setup : Setup) (names : Interner)

theorem start_prepared :
  (setup.start names).1.Prepared (setup.start names).2.names
  := by
  obtain ⟨-, hlibrary⟩ := libraryFields_given names LibraryFunction.all
  rw [start]
  generalize libraryFields names LibraryFunction.all = library at hlibrary ⊢
  obtain ⟨fields, names⟩ := library
  have hstd := names.le_intern "std"
  dsimp only at hlibrary hstd ⊢
  generalize names.intern "std" = std at hstd ⊢
  obtain ⟨hexternals, -⟩ := internExternals_given std.2 setup.externals
  generalize internExternals std.2 setup.externals = externals at hexternals ⊢
  obtain ⟨harguments, hgiven⟩ := internExternals_given externals.2 setup.arguments
  generalize internExternals externals.2 setup.arguments = arguments at harguments hgiven ⊢
  have hlater : arguments.2 ≤ _ := (arguments.2.le_intern "arg").trans
    ((Interner.le_intern _ "array_element").trans (Interner.le_intern _ "rhs"))
  constructor
  · refine ⟨fields, rfl, ?_⟩
    intro field hfield
    exact (hlibrary field hfield).imp_left fun h =>
      h.mono (hstd.trans (hexternals.trans (harguments.trans hlater)))
  · intro given h
    exact (hgiven given ((mem_foldl_giveAnew h).resolve_left List.not_mem_nil)).mono hlater

/-- Where nothing is given from outside, nothing is given in a new session. -/
theorem start_given (hexternals : setup.externals = []) (harguments : setup.arguments = []) :
  (setup.start names).1.externals = [] ∧ (setup.start names).1.arguments = []
  := by
  simp only [start, hexternals, harguments, internExternals, List.foldl_nil, and_self]

theorem start_sharing :
  (setup.start names).1.sharing = setup.sharing
  := by
  rw [start]

theorem start_frontEnd :
  (setup.start names).1.frontEnd = setup.frontEnd
  := by
  rw [start]

/-- In a new session nothing has been computed. -/
theorem start_state :
  (setup.start names).2 = .new (setup.start names).2.names setup.settings.maxStack
  := by
  simp only [start, State.new]

/-- A new session knows the names that were known before. -/
theorem le_start :
  names ≤ (setup.start names).2.names
  := by
  obtain ⟨hlibrary, -⟩ := libraryFields_given names LibraryFunction.all
  rw [start]
  generalize libraryFields names LibraryFunction.all = library at hlibrary ⊢
  have hstd := library.2.le_intern "std"
  dsimp only at hstd ⊢
  generalize library.2.intern "std" = std at hstd ⊢
  obtain ⟨hexternals, -⟩ := internExternals_given std.2 setup.externals
  generalize internExternals std.2 setup.externals = externals at hexternals ⊢
  obtain ⟨harguments, -⟩ := internExternals_given externals.2 setup.arguments
  generalize internExternals externals.2 setup.arguments = arguments at harguments ⊢
  exact hlibrary.trans (hstd.trans (hexternals.trans (harguments.trans
    ((Interner.le_intern _ "arg").trans
      ((Interner.le_intern _ "array_element").trans (Interner.le_intern _ "rhs"))))))

/-- What a setup starts with. -/
theorem exists_start :
  ∃ session start, setup.start names = (session, .new start setup.settings.maxStack) ∧
    session.Prepared start
  := by
  have hprepared := setup.start_prepared names
  have hstate := setup.start_state names
  generalize setup.start names = started at hprepared hstate ⊢
  obtain ⟨session, state⟩ := started
  exact ⟨session, state.names, congrArg _ hstate, hprepared⟩

/-- Other settings make no other difference than the room for frames. -/
theorem start_settings (settings : Settings) :
  ({ setup with settings } : Setup).start names
    = ({ (setup.start names).1 with settings },
      { (setup.start names).2 with stack := .new settings.maxStack })
  := by
  rw [start, start]

/-- Whether results are kept makes no difference to what a session starts with. -/
theorem start_keeping (sharing : Bool) :
  ({ setup with sharing } : Setup).start names
    = ({ (setup.start names).1 with sharing }, (setup.start names).2)
  := by
  rw [start, start]

end Setup

/-- A setup in which nothing is given from outside. -/
def Setup.bare : Setup where
  settings := {}
  externals := []
  arguments := []
  importer := fun _ path => .error (.notAvailable path)
  frontEnd := fun names _ _ => (.broken "no front end", names)
  sharing := true

/-- The program that binds a variable to null and is that variable. -/
def Code.localNull : Code :=
  ⟨{ file := .empty
     nodes := #[.null, .var .empty, .locals ⟨0, 1⟩ ⟨1⟩]
     binds := #[⟨.empty, ⟨0⟩⟩] }, ⟨2⟩⟩

end Jsonnet
