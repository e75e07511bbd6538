import Jsonnet.Proofs.Itself
import Jsonnet.Proofs.Literals
import Jsonnet.Proofs.Renaming

/-!
# The order of the fields in a literal

The fields of an object literal that are named by different string literals may stand in any
order: a program comes to the same text, or to the same failure with the same backtrace.
-/

namespace Jsonnet

/-! ### Codes with fields in another order -/

/-- Whether fields are named by string literals that differ from each other. -/
structure Arena.NamesApart (a : Arena) (definitions : List FieldDef) : Prop where
  literal : ∀ d ∈ definitions, ∃ name, a.node d.name = .string name
  distinct : (definitions.map fun d => a.node d.name).Nodup

/-- Whether two arenas are the same up to the order of the fields in object literals, where the
fields of every literal that is ordered anew are named by different string literals. -/
structure Arena.Reordered (a a' : Arena) : Prop where
  file : a.file = a'.file
  nodes : a.nodes = a'.nodes
  spans : a.spans = a'.spans
  lists : a.lists = a'.lists
  binds : a.binds = a'.binds
  params : a.params = a'.params
  fields : ∀ id asserts definitions, a.node id = .object asserts definitions →
    a.readFields definitions = a'.readFields definitions ∨
      a.NamesApart (a.readFields definitions) ∧
        (a.readFields definitions).Perm (a'.readFields definitions)

/-- Whether two codes are the same expression up to the order of fields. -/
structure Code.Reordered (c c' : Code) : Prop where
  arena : c.arena.Reordered c'.arena
  root : c.root = c'.root

theorem Code.Reordered.refl (c : Code) :
  c.Reordered c
  := ⟨⟨rfl, rfl, rfl, rfl, rfl, rfl, fun _ _ _ _ => .inl rfl⟩, rfl⟩

namespace Arena

variable {a a' : Arena}

/-- The fields have names of their own. -/
theorem NamesApart.exists_names {definitions : List FieldDef} (h : a.NamesApart definitions) :
  ∃ names : List Name,
    List.Forall₂ (fun d name => a.node d.name = .string name) definitions names ∧ names.Nodup
  := by
  obtain ⟨names, labels⟩ := exists_forall₂ h.literal
  refine ⟨names, labels, ?_⟩
  have heq : (definitions.map fun d => a.node d.name) = names.map .string := by
    rw [← List.forall₂_eq_eq_eq, List.forall₂_map_left_iff, List.forall₂_map_right_iff]
    exact labels
  have distinct := h.distinct
  rw [heq] at distinct
  exact distinct.of_map _

namespace Reordered

variable (h : a.Reordered a')

include h

theorem node (id : NodeId) :
  a.node id = a'.node id
  := by rw [Arena.node, Arena.node, h.nodes]

theorem symm :
  a'.Reordered a
  where
  file := h.file.symm
  nodes := h.nodes.symm
  spans := h.spans.symm
  lists := h.lists.symm
  binds := h.binds.symm
  params := h.params.symm
  fields id asserts definitions hnode := by
    refine (h.fields id asserts definitions ((h.node id).trans hnode)).imp Eq.symm ?_
    rintro ⟨⟨literal, distinct⟩, perm⟩
    refine ⟨⟨fun d hd => ?_, ?_⟩, perm.symm⟩
    · rw [← h.node]
      exact literal d (perm.mem_iff.mpr hd)
    · simp only [← h.node]
      exact (perm.map _).nodup_iff.mp distinct

end Reordered

end Arena

theorem Code.Reordered.symm {c c' : Code} (h : c.Reordered c') :
  c'.Reordered c
  := ⟨h.arena.symm, h.root.symm⟩

/-! ### Their kind -/

/-- A node differs from itself by names that stand for themselves. -/
theorem Node.Named.renamed {ν : Name → Name → Prop} {node : Node}
    (h : node.Named fun name => ν name name) :
  node.Renamed ν node
  := by
  cases node with
  | string name => exact .string h
  | var name => exact .var h
  | importCode path => exact .importCode h
  | importText path => exact .importText h
  | _ => exact .nameless _ rfl

/-- They have the same names. -/
theorem Code.Reordered.named {c c' : Code} (h : c.Reordered c') {P : Name → Prop}
    (named : c.Named P) :
  c'.Named P
  where
  file := h.arena.file ▸ named.file
  node := h.arena.nodes ▸ named.node
  bind := h.arena.binds ▸ named.bind
  param := h.arena.params ▸ named.param

/-- The nodes of codes with fields in another order are akin. -/
theorem Code.Reordered.akin {c c' : Code} (h : c.Reordered c') {ν : Name → Name → Prop}
    (named : c.Named fun name => ν name name) {live : Name → Prop} (alive : ∀ n, live n)
    {sub : (Name → Prop) → NodeId → NodeId → Prop}
    (hsub : ∀ live id, (∀ n, live n) → sub live id id) :
  Node.Akin ν sub False True live c.arena c'.arena c.node c'.node
  := by
  have same : c'.node = c.node := by rw [Code.node, Code.node, ← h.root, h.arena.node]
  rw [same]
  refine Node.Named.renamed named.root |>.akin alive hsub h.arena.lists ?_ ?_ ?_
  · rw [← h.arena.binds]
    exact List.forall₂_same.mpr fun bind hbind => ⟨named.bind bind (Array.mem_toList_iff.mp hbind), rfl⟩
  · rw [← h.arena.params]
    exact List.forall₂_same.mpr fun name hname => named.param name (Array.mem_toList_iff.mp hname)
  · intro asserts definitions hnode
    rw [hnode]
    have elements : List.Forall₂ (sub live) (c.arena.readList asserts) (c'.arena.readList asserts) := by
      rw [Arena.readList, Arena.readList, h.arena.lists]
      exact List.forall₂_same.mpr fun id _ => hsub live id alive
    have fields : List.Forall₂ (FieldDef.Akin sub live) (c.arena.readFields definitions)
        (c.arena.readFields definitions) :=
      List.forall₂_same.mpr fun f _ => ⟨hsub live f.name alive, rfl, hsub live f.body alive, rfl⟩
    obtain unchanged | ⟨apart, perm⟩ := h.arena.fields c.root asserts definitions hnode
    · refine .object elements ?_
      rw [← unchanged]
      exact fields
    · obtain ⟨names, labels, distinct⟩ := apart.exists_names
      exact .reordered trivial elements fields perm labels distinct

/-- Codes with fields in another order, all of whose names stand for themselves; all names are
live. -/
def Kinship.reordered : Kinship where
  code ν live c c' := c.Reordered c' ∧ c.Named (fun name => ν name name) ∧ ∀ n, live n
  dead := False
  reorders := True
  mono h hνμ := ⟨h.1, h.2.1.mono fun _ => hνμ _ _, h.2.2⟩
  location := by
    rintro ν live c c' ⟨⟨harena, hroot⟩, named, -⟩
    rw [Code.location, Code.location, Arena.location, Arena.location, Arena.span, Arena.span,
      ← harena.spans, ← hroot, ← harena.file]
    exact ⟨named.file, rfl⟩
  node := by
    rintro ν live c c' ⟨h, named, alive⟩
    exact h.akin named alive fun live id alive => ⟨⟨h.arena, rfl⟩, named, alive⟩

/-! ### Their results -/

/-- A front end all of whose names come from the interner, those of the files in which it finds
errors included. -/
structure FrontEnd.InternsAll (frontEnd : FrontEnd) : Prop extends frontEnd.Interns where
  located : ∀ names file source message location,
    (frontEnd names file source).1 = .rejected ⟨message, some location⟩ →
      (frontEnd names file source).2.Gives location.file

/-- The bond in which the names of an interner stand for themselves. -/
def Bond.given (w : Bond) (names : Interner) : Bond where
  name n n' := n = n' ∧ names.Gives n
  thunk := w.thunk
  slot := w.slot
  empty := ⟨rfl, names.gives_empty⟩
  left_unique h h' := h.1.trans h'.1.symm
  right_unique h h' := h.1.symm.trans h'.1

/-- More names stand for themselves when the interner grows. -/
theorem Bond.renames_given {w : Bond} {names later : Interner}
    (h : ∀ n n', w.name n n' ↔ n = n' ∧ names.Gives n) (hle : names ≤ later) :
  w.Renames (w.given later)
  := by
  refine ⟨⟨fun n n' hn => ?_, fun _ => id, fun _ => id⟩, rfl, rfl⟩
  obtain ⟨rfl, gives⟩ := (h n n').mp hn
  exact ⟨rfl, gives.mono hle⟩

/-- Two runs with one interner, whose names stand for themselves. -/
def Accord.given {frontEnd : FrontEnd} (interns : frontEnd.InternsAll) :
    Accord .reordered frontEnd frontEnd where
  holds ν m m' := m = m' ∧ ∀ n n', ν n n' ↔ n = n' ∧ m.Gives n
  room _ := True
  room_mono _ _ := trivial
  appends := .inl interns.appends
  text := by
    rintro ν m _ n n' ⟨rfl, hν⟩ hn
    rw [((hν n n').mp hn).1]
  gives := by
    rintro - ν m _ n n' ⟨rfl, hν⟩ hn
    obtain ⟨rfl, gives⟩ := (hν n n').mp hn
    exact ⟨gives, gives⟩
  intern := by
    rintro w m _ s ⟨rfl, hw⟩ -
    cases h : m.tryIntern s with
    | error e => exact .inl ⟨e, rfl, rfl⟩
    | ok result =>
      obtain ⟨n, k⟩ := result
      obtain ⟨hle, numbers⟩ := Interner.tryIntern_ok h
      exact .inr ⟨n, k, n, k, w.given k, rfl, rfl, Bond.renames_given hw hle, ⟨rfl, fun _ _ => Iff.rfl⟩,
        rfl, s, numbers⟩
  compile := by
    rintro w m _ file source ⟨rfl, hw⟩ -
    refine ⟨w.given (frontEnd m file source).2, Bond.renames_given hw (interns.appends _ _ _),
      ⟨rfl, fun _ _ => Iff.rfl⟩, ?_⟩
    cases h : (frontEnd m file source).1 with
    | program code =>
      exact .program ⟨.refl code, (interns.named m file source code h).mono fun _ => .intro rfl,
        fun _ => trivial⟩
    | rejected error =>
      obtain ⟨message, location⟩ := error
      refine .rejected message ?_
      cases location with
      | none => exact .none
      | some l => exact .some ⟨⟨rfl, interns.located m file source message l h⟩, rfl⟩
    | broken message => exact .broken message

/-- The states that a session comes to by evaluating programs one after the other, each of them
with names that the interner has given out. A program may fail. Programs are compiled in between,
which adds names. -/
inductive Session.Evolves (session : Session) (start : State) : State → Prop where
  | start : Evolves session start start
  | names {a : State} {names : Interner} (before : Evolves session start a) (le : a.names ≤ names) :
    Evolves session start { a with names }
  | program {a : State} {code : Code} {fuel : Nat} {x : Outcome String}
      (before : Evolves session start a) (named : code.Named a.names.Gives)
      (run : code.output.run session fuel a = some x) :
    Evolves session start x.2

section

variable {setup : Setup} {names : Interner} {a : State}

/-- The states between evaluations are akin to themselves. -/
theorem Session.Evolves.meets (interns : setup.frontEnd.InternsAll)
    (h : (setup.start names).1.Evolves (setup.start names).2 a) :
  ∃ w, (setup.start names).1.Akin .reordered w (setup.start names).1 ∧
    (Accord.given interns).Meets w a a
  := by
  induction h with
  | start =>
    obtain ⟨w, hle, holds, akin, sessions⟩ := Setup.start_akin (Accord.given interns)
      (w := Bond.outset.given names) (fun _ => id) (fun _ => id) ⟨rfl, fun _ _ => Iff.rfl⟩ trivial
    exact ⟨w, sessions, holds, akin⟩
  | @names a later before le ih =>
    obtain ⟨w, sessions, meets⟩ := ih
    have renames := Bond.renames_given meets.holds.2 le
    exact ⟨w.given later, sessions.mono renames.le, ⟨rfl, fun _ _ => Iff.rfl⟩,
      (meets.akin.mono renames).setNames _ _⟩
  | @program a code fuel x before named run ih =>
    obtain ⟨w, sessions, meets⟩ := ih
    have hcode : Kinship.reordered.code w.name (fun _ => True) code code :=
      ⟨.refl code, named.mono fun n hn => (meets.holds.2 n n).mpr ⟨rfl, hn⟩, fun _ => trivial⟩
    have hfront := setup.start_frontEnd names
    obtain ⟨fuel', y, hy, hends⟩ := (Accord.given interns).output hfront hfront sessions meets hcode
      run ⟨trivial, False.elim⟩
    obtain ⟨n, hn⟩ := Action.run_iff.mp ⟨fuel, run⟩
    obtain ⟨n', hn'⟩ := Action.run_iff.mp ⟨fuel', hy⟩
    cases Progress.resolve_unique hn hn'
    obtain ⟨w', le, meets'⟩ := hends.state
    exact ⟨w', sessions.mono le, meets'⟩

/-- The order of fields in an object literal does not matter. On an interpreter that may have
evaluated other programs before, two programs that differ at most in the order of the fields of
object literals, where these are named by different string literals, come to the same text or to
the same failure, its backtrace included; or neither comes to an end. -/
theorem Code.Reordered.result_iff {c c' : Code} (h : c.Reordered c')
    (interns : setup.frontEnd.InternsAll)
    (before : (setup.start names).1.Evolves (setup.start names).2 a)
    (named : c.Named a.names.Gives) (outcome : Except Failure String) :
  (∃ fuel b, c.output.run (setup.start names).1 fuel a = some (outcome, b))
    ↔ ∃ fuel b, c'.output.run (setup.start names).1 fuel a = some (outcome, b)
  := by
  have one_way : ∀ {c c' : Code}, c.Reordered c' → c.Named a.names.Gives →
      (∃ fuel b, c.output.run (setup.start names).1 fuel a = some (outcome, b)) →
      ∃ fuel b, c'.output.run (setup.start names).1 fuel a = some (outcome, b) := by
    rintro c c' h named ⟨fuel, b, run⟩
    obtain ⟨w, sessions, meets⟩ := before.meets interns
    have hcode : Kinship.reordered.code w.name (fun _ => True) c c' :=
      ⟨h, named.mono fun n hn => (meets.holds.2 n n).mpr ⟨rfl, hn⟩, fun _ => trivial⟩
    have hfront := setup.start_frontEnd names
    obtain ⟨fuel', y, hy, hends⟩ := (Accord.given interns).output hfront hfront sessions meets hcode
      run ⟨trivial, False.elim⟩
    have heq : outcome = y.1 := by
      cases hends with
      | ok _ _ result => exact congrArg Except.ok result
      | error _ meets failure =>
        exact congrArg Except.error (failure.eq fun n n' hn => ((meets.holds.2 n n').mp hn).1)
    exact ⟨fuel', y.2, by rw [hy, heq]⟩
  exact ⟨one_way h named, one_way h.symm (h.named named)⟩

end

/-- A program that compares an object with null. The object has two fields, one of which has the
empty name. -/
def Code.pairIsNull (name : Name) (definitions : Array FieldDef) : Code :=
  ⟨{ file := .empty
     nodes := #[.string .empty, .string name, .null, .bool true, .object .empty ⟨0, 2⟩,
       .binary .equal ⟨4⟩ ⟨2⟩]
     fields := definitions }, ⟨5⟩⟩

/-- The field with the empty name, which is null. -/
def FieldDef.first : FieldDef := ⟨⟨0⟩, .inherit, ⟨2⟩, false⟩

/-- The other field, which is true. -/
def FieldDef.second : FieldDef := ⟨⟨1⟩, .inherit, ⟨3⟩, false⟩

theorem Code.pairIsNull_gives (session : Session) {names : Interner} {name : Name}
    (given : names.Gives name) (hne : name ≠ .empty) :
  ∃ b, (Code.pairIsNull name #[.first, .second]).output.Gives session (.new names 500) "false\n" b
  := by
  let code := Code.pairIsNull name #[.first, .second]
  let fields : List (Name × Field) :=
    [(.empty, ⟨.inherit, .code (code.sibling ⟨2⟩) false⟩),
      (name, ⟨.inherit, .code (code.sibling ⟨3⟩) false⟩)]
  let o : Object := .leaf ⟨⟨1⟩, session.base.scope, fields, []⟩
  let inside (counters : Counters) (checks : Array AssertionState) : State :=
    { State.new names 500 with stack := ⟨[⟨code.location, .main⟩], 499⟩, counters, checks }
  let counted (n : Nat) : Counters := ((State.new names 500).counting n).counters
  have left : ((code.sibling ⟨4⟩).evaluate session.base).Gives session (inside (counted 1) #[.notChecked])
      (.object o) (inside (counted 4) #[.notChecked, .notChecked]) := by
    have hnode : (code.sibling ⟨4⟩).node = .object .empty ⟨0, 2⟩ := rfl
    have labels : List.Forall₂ (FieldDef.Labels (code.sibling ⟨4⟩)) [.first, .second] fields :=
      .cons ⟨rfl, rfl⟩ (.cons ⟨rfl, rfl⟩ .nil)
    have all : ∀ f ∈ fields, names.Gives f.1 := by
      intro f hf
      obtain rfl | hf := List.mem_cons.mp hf
      · exact names.gives_empty
      · exact List.mem_singleton.mp hf ▸ given
    have apart : (fields.map Prod.fst).Nodup :=
      List.nodup_cons.mpr ⟨fun h => hne (List.mem_singleton.mp h).symm, List.nodup_singleton _⟩
    have gives : (Task.evaluate (code.sibling ⟨4⟩) session.base).Gives session
        (inside (counted 1) #[.notChecked]) _ _ := .evaluate_object hnode labels all apart
    exact Action.Gives.request_iff.mpr gives
  have right : ((code.sibling ⟨2⟩).evaluate session.base).Gives session
      (inside (counted 4) #[.notChecked, .notChecked]) .null
      (inside (counted 5) #[.notChecked, .notChecked]) :=
    Action.Gives.iff_resolve.mpr ⟨1, rfl⟩
  have equals : ((Function.builtin (.binary .equal)).call [.ready (.object o), .ready .null]
      code.location).Gives session (inside (counted 5) #[.notChecked, .notChecked]) (.bool false)
      (inside ((counted 5).count .builtinCall) #[.notChecked, .notChecked]) :=
    Action.Gives.iff_resolve.mpr ⟨3, rfl⟩
  have evaluated : (Task.evaluate code session.base).Gives session (inside .zero #[.notChecked])
      (.bool false) _ :=
    .of_action rfl (.bind (.take rfl) (.bind left (.bind (.bind right (.pure _)) equals)))
  have whole : (Task.output code).Gives session (inside .zero #[.notChecked]) "false\n" _ :=
    .of_action rfl (.bind (.bind (Action.Gives.iff_resolve.mpr ⟨0, rfl⟩)
      (.bind (Action.Gives.request_iff.mpr evaluated) (.pure _)))
      (.bind (Action.Gives.iff_resolve.mpr ⟨2, rfl⟩) (.pure _)))
  exact ⟨_, .inFrame rfl whole⟩

theorem Code.pairIsNull_reordered {name : Name} (hne : name ≠ .empty) :
  (Code.pairIsNull name #[.first, .second]).Reordered (.pairIsNull name #[.second, .first])
  := by
  refine ⟨⟨rfl, rfl, rfl, rfl, rfl, rfl, ?_⟩, rfl⟩
  rintro ⟨_ | _ | _ | _ | _ | _ | i⟩ asserts definitions hnode
  case succ.succ.succ.succ.zero =>
    cases hnode
    refine .inr ⟨⟨?_, ?_⟩, .swap _ _ []⟩
    · intro d hd
      obtain rfl | hd := List.mem_cons.mp hd
      · exact ⟨.empty, rfl⟩
      · cases List.mem_singleton.mp hd
        exact ⟨name, rfl⟩
    · refine List.nodup_cons.mpr ⟨fun h => hne ?_, List.nodup_singleton _⟩
      cases List.mem_singleton.mp h
      rfl
  all_goals cases hnode

theorem Code.pairIsNull_named {P : Name → Prop} {name : Name} (empty : P .empty) (hname : P name)
    (definitions : Array FieldDef) :
  (Code.pairIsNull name definitions).Named P
  where
  file := empty
  node node hnode := by
    simp only [pairIsNull, List.mem_toArray, List.mem_cons, List.not_mem_nil, or_false] at hnode
    obtain rfl | rfl | rfl | rfl | rfl | rfl := hnode
    · exact empty
    · exact hname
    all_goals trivial
  bind bind hbind := absurd hbind (Array.not_mem_empty bind)
  param name hname := absurd hname (Array.not_mem_empty name)

/-- A pair is not null, whichever of its fields is written first. -/
theorem Code.pairIsNull_swapped :
  ∃ (names : Interner) (name : Name),
    (Code.pairIsNull name #[.first, .second]).Reordered (.pairIsNull name #[.second, .first]) ∧
      Setup.bare.frontEnd.InternsAll ∧
      (Setup.bare.start names).1.Evolves (Setup.bare.start names).2 (Setup.bare.start names).2 ∧
      (Code.pairIsNull name #[.first, .second]).Named (Setup.bare.start names).2.names.Gives ∧
      ∃ fuel b, (Code.pairIsNull name #[.second, .first]).output.run (Setup.bare.start names).1 fuel
        (Setup.bare.start names).2 = some (.ok "false\n", b)
  := by
  have spare : Interner.onlyEmpty.HasSpare := by
    unfold Interner.HasSpare
    decide +kernel
  have numbers := spare.numbers_intern "x"
  generalize Interner.onlyEmpty.intern "x" = interned at numbers
  obtain ⟨name, names⟩ := interned
  have hne : name ≠ .empty := by
    rintro rfl
    have heq := numbers.string.symm.trans names.numbers_empty.string
    exact absurd (Option.some.inj heq) (by decide)
  have given : (Setup.bare.start names).2.names.Gives name :=
    Interner.Gives.mono ⟨"x", numbers⟩ (Setup.bare.le_start names)
  have interns : Setup.bare.frontEnd.InternsAll := ⟨⟨fun _ _ _ => le_rfl, nofun⟩, nofun⟩
  have named := Code.pairIsNull_named (Interner.gives_empty _) given #[.first, .second]
  have reordered := Code.pairIsNull_reordered hne
  have run : ∃ fuel b, (Code.pairIsNull name #[.first, .second]).output.run (Setup.bare.start names).1
      fuel (Setup.bare.start names).2 = some (.ok "false\n", b) := by
    obtain ⟨b, fuel, run⟩ := Code.pairIsNull_gives (Setup.bare.start names).1 given hne
    rw [Setup.start_state]
    exact ⟨fuel, b, run⟩
  exact ⟨names, name, reordered, interns, .start, named,
    (reordered.result_iff interns .start named _).mp run⟩

end Jsonnet
