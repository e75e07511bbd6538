import Jsonnet.Proofs.ParallelRuns
import Jsonnet.Proofs.Spelling

/-!
# Names of the same strings

A front end that uses the interner only to turn strings into names compiles a text to the same
program up to names, whatever the interner. Programs that differ by names of the same strings run
in parallel.
-/

namespace Jsonnet

/-! ### Renamed programs -/

/-- Whether an expression consists of something else than a name. -/
def Node.isNameless : Node → Bool
  | .string _ | .var _ | .importCode _ | .importText _ => false
  | _ => true

section

variable (ν : Name → Name → Prop)

/-- Nodes that differ by names that stand for each other. -/
inductive Node.Renamed : Node → Node → Prop where
  | string {s s' : Name} (value : ν s s') : Renamed (.string s) (.string s')
  | var {n n' : Name} (name : ν n n') : Renamed (.var n) (.var n')
  | importCode {p p' : Name} (path : ν p p') : Renamed (.importCode p) (.importCode p')
  | importText {p p' : Name} (path : ν p p') : Renamed (.importText p) (.importText p')
  | nameless (node : Node) (nameless : node.isNameless = true) : Renamed node node

/-- Arenas that differ by names that stand for each other. -/
structure Arena.Renamed (a a' : Arena) : Prop where
  file : ν a.file a'.file
  nodes : List.Forall₂ (Node.Renamed ν) a.nodes.toList a'.nodes.toList
  spans : a.spans = a'.spans
  lists : a.lists = a'.lists
  binds : List.Forall₂ (fun b b' => ν b.name b'.name ∧ b.body = b'.body) a.binds.toList
    a'.binds.toList
  params : List.Forall₂ ν a.params.toList a'.params.toList
  fields : a.fields = a'.fields

/-- Codes that differ by names that stand for each other. -/
structure Code.Renamed (c c' : Code) : Prop where
  arena : c.arena.Renamed ν c'.arena
  root : c.root = c'.root

end

section

variable {ν μ : Name → Name → Prop}

theorem Node.Renamed.mono {n n' : Node} (h : n.Renamed ν n') (hνμ : ∀ m m', ν m m' → μ m m') :
  n.Renamed μ n'
  := by
  cases h with
  | string value => exact .string (hνμ _ _ value)
  | var name => exact .var (hνμ _ _ name)
  | importCode path => exact .importCode (hνμ _ _ path)
  | importText path => exact .importText (hνμ _ _ path)
  | nameless _ nameless => exact .nameless _ nameless

theorem Arena.Renamed.mono {a a' : Arena} (h : a.Renamed ν a') (hνμ : ∀ n n', ν n n' → μ n n') :
  a.Renamed μ a'
  where
  file := hνμ _ _ h.file
  nodes := h.nodes.imp fun _ _ hn => hn.mono hνμ
  spans := h.spans
  lists := h.lists
  binds := h.binds.imp fun _ _ hb => ⟨hνμ _ _ hb.1, hb.2⟩
  params := h.params.imp hνμ
  fields := h.fields

/-- The entries of related tables that a slice covers are related. -/
theorem Slice.read_related {α : Type} {R : α → α → Prop} {table table' : Array α}
    (h : List.Forall₂ R table.toList table'.toList) (slice : Slice α) :
  List.Forall₂ R (slice.read table) (slice.read table')
  := by
  rw [Slice.read, Slice.read, Array.toList_extract, Array.toList_extract]
  exact List.forall₂_take _ (List.forall₂_drop _ h)

/-- Nodes that differ by names are akin, in arenas with the same lists, whatever is to be said
about the fields of objects. -/
theorem Node.Renamed.akin {a a' : Arena} {n n' : Node} (node : n.Renamed ν n') {live : Name → Prop}
    (alive : ∀ n, live n) {dead reorders : Prop} {sub : (Name → Prop) → NodeId → NodeId → Prop}
    (hsub : ∀ live id, (∀ n, live n) → sub live id id) (lists : a.lists = a'.lists)
    (binds : List.Forall₂ (fun b b' => ν b.name b'.name ∧ b.body = b'.body) a.binds.toList
      a'.binds.toList)
    (params : List.Forall₂ ν a.params.toList a'.params.toList)
    (object : ∀ xs fs, n = .object xs fs → Node.Akin ν sub dead reorders live a a' n n) :
  Node.Akin ν sub dead reorders live a a' n n'
  := by
  have child : ∀ id, sub live id id := fun id => hsub live id alive
  have inside : ∀ id, sub (fun _ => True) id id := fun id => hsub _ id fun _ => trivial
  have children : ∀ slice, List.Forall₂ (sub live) (a.readList slice) (a'.readList slice) := by
    intro slice
    rw [Arena.readList, Arena.readList, lists]
    exact List.forall₂_same.mpr fun id _ => child id
  cases node with
  | string value => exact .string value
  | var name => exact .var name (alive _)
  | importCode path => exact .importCode path
  | importText path => exact .importText path
  | nameless _ nameless =>
    cases n with
    | null => exact .null
    | bool b => exact .bool b
    | number x => exact .number x
    | locals bs b =>
      refine .locals ?_ (inside b) (fun n _ => .inr (alive n)) fun _ _ _ => trivial
      refine (Slice.read_related binds bs).imp ?_
      rintro b b' ⟨name, body⟩
      exact ⟨name, fun _ => body ▸ inside b.body⟩
    | function ps b =>
      exact .function (Slice.read_related params ps) (inside b) fun n _ => .inr (alive n)
    | apply f xs => exact .apply (child f) (children xs)
    | array xs => exact .array (children xs)
    | object xs fs => exact object xs fs rfl
    | binary op x y => exact .binary op (child x) (child y)
    | unary op x => exact .unary op (child x)
    | conditional c x y => exact .conditional (child c) (child x) (child y)
    | index x i => exact .index (child x) (child i)
    | superIndex i => exact .superIndex (child i)
    | selfRef => exact .selfRef
    | error x => exact .error (child x)
    | _ => cases nameless

namespace Arena.Renamed

variable {a a' : Arena} (h : a.Renamed ν a')

include h

theorem node (id : NodeId) :
  (a.node id).Renamed ν (a'.node id)
  := by
  have hentry : Option.Rel (Node.Renamed ν) a.nodes[id.index]? a'.nodes[id.index]? := by
    rw [← Array.getElem?_toList, ← Array.getElem?_toList]
    generalize a.nodes.toList = ns, a'.nodes.toList = ns', id.index = i, h.nodes = h
    induction h generalizing i with
    | nil => exact .none
    | cons head _ ih =>
      cases i with
      | zero => exact .some head
      | succ i => exact ih i
  rw [Arena.node, Arena.node]
  generalize a.nodes[id.index]? = x, a'.nodes[id.index]? = y at hentry
  cases hentry with
  | none => exact .nameless .null rfl
  | some node => exact node

theorem readList (slice : Slice NodeId) :
  a.readList slice = a'.readList slice
  := by
  rw [Arena.readList, Arena.readList, h.lists]

theorem readFields (slice : Slice FieldDef) :
  a.readFields slice = a'.readFields slice
  := by
  rw [Arena.readFields, Arena.readFields, h.fields]

/-- Nodes of renamed arenas are akin. -/
theorem akin {live : Name → Prop} (alive : ∀ n, live n) {dead reorders : Prop}
    {sub : (Name → Prop) → NodeId → NodeId → Prop} (hsub : ∀ live id, (∀ n, live n) → sub live id id)
    {n n' : Node} (node : n.Renamed ν n') :
  Node.Akin ν sub dead reorders live a a' n n'
  := by
  refine node.akin alive hsub h.lists h.binds h.params ?_
  rintro xs fs rfl
  refine .object ?_ ?_
  · rw [h.readList]
    exact List.forall₂_same.mpr fun id _ => hsub live id alive
  · rw [h.readFields]
    exact List.forall₂_same.mpr fun f _ =>
      ⟨hsub live f.name alive, rfl, hsub live f.body alive, rfl⟩

end Arena.Renamed

end

/-- Codes that differ by names that stand for each other; all names are live. -/
def Kinship.renamed : Kinship where
  code ν live c c' := c.Renamed ν c' ∧ ∀ n, live n
  dead := False
  reorders := False
  mono h hνμ := ⟨⟨h.1.arena.mono hνμ, h.1.root⟩, h.2⟩
  location := by
    rintro ν live c c' ⟨⟨harena, hroot⟩, -⟩
    refine ⟨harena.file, ?_⟩
    rw [Code.location, Code.location, Arena.location, Arena.location, Arena.span, Arena.span,
      harena.spans, hroot]
  node := by
    rintro ν live c c' ⟨⟨harena, hroot⟩, alive⟩
    refine harena.akin alive (fun live id alive => ⟨⟨harena, rfl⟩, alive⟩) ?_
    rw [Code.node, Code.node, hroot]
    exact harena.node c'.root

/-! ### Front ends -/

/-- A front end that uses the interner only to turn strings into names: it only adds strings, and
as long as no shard is full, it always adds the same strings for a text, and compiles it to the
same up to names, which are names of the same strings. -/
structure FrontEnd.OnlyNames (frontEnd : FrontEnd) : Prop where
  appends : frontEnd.Appends
  strings : ∀ file source, ∃ strings, ∀ names,
    (frontEnd names file source).2.HasSpare ∨ (names.internAll strings).2.HasSpare →
      (frontEnd names file source).2 = (names.internAll strings).2
  renames : ∀ file source names names',
    (frontEnd names file source).2.HasSpare → (frontEnd names' file source).2.HasSpare →
      Compiled.Akin .renamed
        ((frontEnd names file source).2.Same (frontEnd names' file source).2)
        (frontEnd names file source).1 (frontEnd names' file source).1

/-- Two interners of which the second knows no more strings than the first and some others. -/
def Interner.Covers (names other names' : Interner) : Prop :=
  ∀ index, names'.known index ⊆ names.known index ∪ other.known index

theorem Interner.Covers.intern {names other names' : Interner} (h : names.Covers other names')
    (s : String) (spare : names.HasSpare) :
  (names.intern s).2.Covers other (names'.intern s).2
  := by
  intro index t ht
  rw [Finset.mem_union]
  obtain ht | ⟨rfl, rfl⟩ := mem_known_of_intern ht
  · refine (Finset.mem_union.mp (h index ht)).imp_left fun ht => ?_
    exact known_mono (names.le_intern s) index ht
  · exact .inl (spare.numbers_intern _).mem_known

theorem Interner.Covers.internAll {names other names' : Interner} (h : names.Covers other names')
    (strings : List String) (spare : (names.internAll strings).2.HasSpare) :
  (names.internAll strings).2.Covers other (names'.internAll strings).2
  := by
  induction strings generalizing names names' with
  | nil => exact h
  | cons s rest ih =>
    rw [internAll_cons] at spare
    rw [internAll_cons, internAll_cons]
    exact ih (h.intern s (spare.mono ((names.le_intern s).trans (le_internAll _ rest)))) spare

/-- The names of the same strings stand for each other. -/
def Bond.same (w : Bond) (names names' : Interner) : Bond where
  name := names.Same names'
  thunk := w.thunk
  slot := w.slot
  empty := .empty names names'
  left_unique := Interner.Same.left_unique
  right_unique := Interner.Same.right_unique

/-- Two runs of which the second begins with some other interner: names of the same strings stand
for each other, as long as the interner of the first run fits with the other one. -/
def Accord.renaming {frontEnd : FrontEnd} (h : frontEnd.OnlyNames) (other : Interner) :
    Accord .renamed frontEnd frontEnd where
  holds ν m m' := (∀ n n', ν n n' ↔ m.Same m' n n') ∧ m.Covers other m'
  room m := m.FitsWith other
  room_mono hle fits := fits.mono hle
  appends := .inl h.appends
  text holds name := ((holds.1 _ _).mp name).lookup_eq
  gives := False.elim
  intern := by
    rintro w m m' s ⟨hw, covers⟩ fits
    have hle := m.le_intern s
    have spare := (fits.mono hle).hasSpare fun _ => Finset.subset_union_left
    have spare' := (fits.mono hle).hasSpare covers
    have covers' := covers.intern s spare
    obtain ⟨n, k, hk⟩ := spare.tryIntern s
    obtain ⟨n', k', hk'⟩ := spare'.tryIntern s
    obtain ⟨hle, numbers⟩ := Interner.tryIntern_ok hk
    obtain ⟨hle', numbers'⟩ := Interner.tryIntern_ok hk'
    simp only [Interner.intern, hk, hk'] at covers'
    refine .inr ⟨n, k, n', k', w.same k k', hk, hk', ⟨⟨?_, fun _ => id, fun _ => id⟩, rfl, rfl⟩,
      ⟨fun _ _ => Iff.rfl, covers'⟩, ⟨s, numbers, numbers'⟩⟩
    exact fun n n' hname => ((hw n n').mp hname).mono hle hle'
  compile := by
    rintro w m m' file source ⟨hw, covers⟩ fits
    obtain ⟨strings, hstrings⟩ := h.strings file source
    have spare := fits.hasSpare fun _ => Finset.subset_union_left
    have heq := hstrings m (.inl spare)
    have covers' := covers.internAll strings (heq ▸ spare)
    rw [← heq] at covers'
    have heq' := hstrings m' (.inr (fits.hasSpare covers'))
    rw [← heq'] at covers'
    have spare' := fits.hasSpare covers'
    refine ⟨w.same (frontEnd m file source).2 (frontEnd m' file source).2,
      ⟨⟨?_, fun _ => id, fun _ => id⟩, rfl, rfl⟩, ⟨fun _ _ => Iff.rfl, covers'⟩,
      h.renames file source m m' spare spare'⟩
    exact fun n n' hname => ((hw n n').mp hname).mono (h.appends _ _ _) (h.appends _ _ _)

end Jsonnet
