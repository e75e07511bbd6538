import Jsonnet.Proofs.Holding
import Jsonnet.Proofs.Kept
import Jsonnet.Proofs.Storing

/-!
# Field queries agree

An object is asked for its fields in two ways: by a search from the right, which finds the
definition that counts, and by a table of visibilities that is built from the left. Both know
the same fields, and whoever uses them sees the same fields: the library functions that count,
test and list fields, and the output. This is so for objects whose literals define their fields
once, and those are all objects that there are in a session.
-/

namespace Jsonnet

namespace Object

/-- An object that is put together of literals which define each of their fields once. -/
structure WellFormed (o : Object) : Prop where
  composed : o.Composed
  once : ∀ l ∈ o.literals, (l.fields.map Prod.fst).Nodup

/-- The visibilities that the literals of an object give to a field, the most derived first. -/
def flags (o : Object) (name : Name) : List Visibility :=
  o.literals.filterMap fun l => (l.field? name).map fun field => field.visibility

/-! ### The search and the table -/

/-- The leaves of an object are its literals, whatever their depths. -/
theorem map_fst_leavesFrom (skipped : Nat) : (o : Object) →
  (o.leavesFrom skipped).map Prod.fst = o.literals
  | .leaf l => rfl
  | .join _ _ _ left right => by
    rw [leavesFrom, literals, List.map_append, map_fst_leavesFrom _ right,
      map_fst_leavesFrom _ left]

/-- Searching from the start finds a field if and only if some literal defines it: no part of the
object is left out, since none is empty. -/
theorem Composed.isSome_findFrom {o : Object} (h : o.Composed) (name : Name) (skipped : Nat) :
  (o.findFrom name 0 skipped).isSome = o.literals.any fun l => (l.field? name).isSome
  := by
  induction h generalizing skipped with
  | leaf l => cases hl : (l.field? name).isSome <;> simp [findFrom, literals, hl]
  | combine id _ hright ihleft ihright =>
    rw [Object.combine, findFrom_join, if_pos hright.size_pos, Nat.zero_sub, Option.isSome_or, ihright,
      ihleft, literals, List.any_append]

namespace WellFormed

variable {o : Object} (h : o.WellFormed) (name : Name)

include h

theorem definitions_eq :
  o.definitions name = o.flags name
  := by
  have each : ∀ l ∈ o.literals, (l.definitions name).reverse
      = ((l.field? name).map fun field => field.visibility).toList := by
    intro l hl
    rw [definitions_of_once (h.once l hl)]
    cases l.field? name <;> rfl
  rw [definitions, leaves, flags, List.filterMap_eq_flatMap_toList]
  rw [← map_fst_leavesFrom 0 o] at each ⊢
  rw [List.flatMap_map]
  exact List.flatMap_congr fun x hx => each x.1 (List.mem_map_of_mem hx)

/-- Some literal defines a field if and only if some literal gives it a visibility. -/
theorem isSome_find?_iff :
  (o.find? 0 name).isSome = true ↔ o.flags name ≠ []
  := by
  rw [find?, h.composed.isSome_findFrom, List.any_eq_true, flags, ne_eq, List.filterMap_eq_nil_iff]
  simp only [Option.map_eq_none_iff, Option.isSome_iff_ne_none]
  push Not
  rfl

/-- The visibility of a field is what the right-most literal says that does not inherit it. -/
theorem lookup_visibility_eq :
  o.visibility.lookup name = if (o.find? 0 name).isSome then
      some (((o.flags name).find? (· ≠ .inherit)).getD .inherit)
    else none
  := by
  rw [lookup_visibility, h.definitions_eq]
  simp only [h.isSome_find?_iff]
  split <;> simp_all

theorem mem_fieldNames_true :
  name ∈ o.fieldNames true ↔ (o.find? 0 name).isSome = true
  := by
  rw [mem_fieldNames_iff_lookup, h.lookup_visibility_eq]
  split <;> simp_all

end WellFormed

/-! ### The order -/

/-- Names that stand for different strings are sorted strictly. -/
theorem pairwise_sortNames {names : Interner} {fields : List Name} (nodup : fields.Nodup)
    (named : ∀ name ∈ fields, names.Gives name) :
  (sortNames names fields).Pairwise fun n m => names.lookup n < names.lookup m
  := by
  have perm := perm_sortNames names fields
  have sorted := sorted_sortNames names fields
  refine (sorted.and (perm.nodup_iff.mpr nodup)).imp_of_mem ?_
  intro n m hn hm hnm
  apply lt_of_le_of_ne hnm.left
  intro heq
  exact hnm.right ((named n (perm.mem_iff.mp hn)).unique (named m (perm.mem_iff.mp hm)) heq)

end Object

/-! ### The library and the output -/

section

variable {session : Session} {o : Object}

/-- The strings of some names are listed in the order of the names. -/
theorem gives_fieldTexts (a : State) (done : List Value) (names : List Name) :
  (fieldTexts done names).Gives session a
    (.ofList (done.reverse ++ names.map fun name => .string (a.names.lookup name))) a
  := by
  induction names generalizing done with
  | nil =>
    rw [List.map_nil, List.append_nil]
    exact .pure _
  | cons name names ih =>
    have text : (Action.textOf name).Gives session a (a.names.lookup name) a := .take rfl
    have rest := ih (.string (a.names.lookup name) :: done)
    rw [List.reverse_cons, List.append_assoc] at rest
    exact text.bind rest

theorem gives_intern_iff {s : String} {name : Name} {a b : State} :
  (Action.intern s).Gives session a name b
    ↔ ∃ names, a.names.tryIntern s = .ok (name, names) ∧ b = { a with names }
  := by
  cases interned : a.names.tryIntern s with
  | ok result =>
    obtain ⟨n, names⟩ := result
    have gives : (Action.intern s).Gives session a n { a with names } := by
      apply Action.Gives.take
      simp only [Operation.apply, interned]
    constructor
    · intro h
      obtain ⟨rfl, rfl⟩ := h.unique gives
      exact ⟨names, rfl, rfl⟩
    · rintro ⟨_, heq, rfl⟩
      cases heq
      exact gives
  | error e =>
    constructor
    · intro h
      obtain ⟨fuel, h⟩ := Action.Gives.iff_resolve.mp h
      simp only [Action.intern, Action.take, Progress.resolve, Operation.apply, interned] at h
      cases h
    · rintro ⟨_, heq, -⟩
      cases heq

/-- What the test for a field gives, once its arguments are forced. -/
theorem gives_hasField_iff {a₁ a₂ a₃ a b : State} {d e f : Deferred} {s : String}
    {includeHidden : Bool} {r : Value} (hd : d.force.Gives session a₁ (.object o) a₂)
    (he : e.force.Gives session a₂ (.string s) a₃)
    (hf : f.force.Gives session a₃ (.bool includeHidden) a) :
  (hasField d e f).Gives session a₁ r b
    ↔ ∃ name names, a.names.tryIntern s = .ok (name, names) ∧ b = { a with names } ∧
      r = .bool (o.hasField name includeHidden)
  := by
  have object : ((Value.object o).expectObject .unknown).Gives session a₂ o a₂ := .pure o
  have text : (stringArgument e).Gives session a₂ s a₃ := he.bind (.pure s)
  have flag : ((Value.bool includeHidden).expectBool .unknown).Gives session a includeHidden a :=
    .pure includeHidden
  rw [hasField, hd.bind_iff, object.bind_iff, text.bind_iff, hf.bind_iff, flag.bind_iff]
  constructor
  · intro h
    obtain ⟨name, c, interned, h⟩ := Action.Gives.of_bind h
    obtain ⟨rfl, rfl⟩ := h.unique (.pure _)
    obtain ⟨names, room, rfl⟩ := gives_intern_iff.mp interned
    exact ⟨name, names, room, rfl, rfl⟩
  · rintro ⟨name, names, interned, rfl, rfl⟩
    exact (gives_intern_iff.mpr ⟨names, interned, rfl⟩).bind (.pure _)

/-- The keys of the fields that are written out are the strings of their names, whatever is
interned in between. -/
theorem keys_of_fieldDocuments (appends : session.frontEnd.Appends) {names : List Name} {a b : State}
    {done fields : List (String × Document)} (named : ∀ name ∈ names, a.names.Gives name)
    (run : (fieldDocuments o done names).Gives session a fields b) :
  fields.map Prod.fst = done.reverse.map Prod.fst ++ names.map a.names.lookup
  := by
  induction names generalizing a done with
  | nil =>
    obtain ⟨rfl, -⟩ := run.unique (.pure _)
    rw [List.map_nil, List.append_nil]
  | cons name names ih =>
    obtain ⟨key, a₁, text, run⟩ := Action.Gives.of_bind run
    obtain ⟨rfl, unchanged⟩ := text.unique (.take rfl)
    rw [unchanged] at run
    obtain ⟨v, a₂, read, run⟩ := Action.Gives.of_bind run
    obtain ⟨document, a₃, inside, run⟩ := Action.Gives.of_bind run
    have later := (read.grows.names appends).trans (inside.grows.names appends)
    have rest : ∀ n ∈ names, a.names.Gives n := fun n hn => named n (List.mem_cons_of_mem _ hn)
    have same : names.map a₃.names.lookup = names.map a.names.lookup :=
      List.map_congr_left fun n hn => (rest n hn).knows.lookup_eq later
    rw [ih (fun n hn => (rest n hn).mono later) run, same, List.reverse_cons, List.map_append,
      List.append_assoc]
    rfl

/-- An object is written out with the fields that are not hidden as keys, in the order of their
strings. -/
theorem keys_of_manifest (appends : session.frontEnd.Appends) {a b : State} {layout : Layout}
    {s : String} (named : ∀ name ∈ o.fieldNames false, a.names.Gives name)
    (run : ((Value.object o).manifest layout).Gives session a s b) :
  ∃ fields, s = (Document.object fields).render layout ∧
    fields.map Prod.fst = (o.sortedFields a.names false).map a.names.lookup
  := by
  obtain ⟨document, a₁, inside, run⟩ := Action.Gives.of_bind run
  obtain ⟨rfl, -⟩ := run.unique (.pure _)
  obtain ⟨known, -⟩ | ⟨-, a₂, ends, -⟩ := (Action.Gives.request_iff.mp inside).cases_known
  · cases known
  · obtain ⟨_, a₃, check, ends⟩ := Action.Gives.of_bind ends
    have later : a.names ≤ a₃.names := check.grows.names appends
    obtain ⟨sorted, a₄, sort, ends⟩ := Action.Gives.of_bind ends
    obtain ⟨rfl, unchanged⟩ := sort.unique (.take rfl)
    rw [unchanged] at ends
    obtain ⟨fields, a₅, written, ends⟩ := Action.Gives.of_bind ends
    obtain ⟨rfl, -⟩ := ends.unique (.pure _)
    refine ⟨fields, rfl, ?_⟩
    have perm := Object.perm_sortNames a₃.names (o.fieldNames false)
    have keys := keys_of_fieldDocuments appends
      (fun n hn => (named n (perm.mem_iff.mp hn)).mono later) written
    rw [keys, Object.sortedFields, ← Object.sortNames_eq later named]
    apply List.map_congr_left
    intro n hn
    exact (named n (perm.mem_iff.mp hn)).knows.lookup_eq later

end

/-! ### All queries -/

namespace Object

/-- Whether the queries for a field agree. -/
structure Answers (o : Object) (name : Name) : Prop where
  listed : name ∈ o.fieldNames true ↔ (o.find? 0 name).isSome = true
  defined : (o.find? 0 name).isSome = true ↔ o.hasField name true = true
  /-- The right-most literal that does not inherit the visibility decides on it. -/
  visibility : o.visibility.lookup name = if (o.find? 0 name).isSome then
      some (((o.flags name).find? (· ≠ .inherit)).getD .inherit)
    else none
  shown : name ∈ o.fieldNames false ↔ o.hasField name false = true
  visible : o.hasField name false = true ↔ ∃ v, o.visibility.lookup name = some v ∧ v ≠ .hidden

/-- Whether the fields of an object are listed once each, and sorted strictly. -/
structure Lists (names : Interner) (o : Object) (includeHidden : Bool) : Prop where
  once : (o.fieldNames includeHidden).Nodup
  sorted : (o.sortedFields names includeHidden).Pairwise fun n m => names.lookup n < names.lookup m
  perm : (o.sortedFields names includeHidden).Perm (o.fieldNames includeHidden)

/-- Whether the library and the output show the fields of an object as the queries do. The
arguments of the functions of the library, which run in a frame, are forced from the left to the
right; then the state is `a`. -/
structure Serves (session : Session) (a : State) (o : Object) : Prop where
  length : ∀ {a₁ : State} {d : Deferred}, d.force.Gives session a₁ (.object o) a →
    (Task.builtin (.library .length) [d]).Gives session a₁
      (.number (.ofNat (o.fieldNames false).length)) a
  /-- A test for a field interns its name, and fails where there is no room for it. -/
  has : ∀ {a₁ a₂ a₃ b : State} {d e f : Deferred} {s : String} {includeHidden : Bool} {r : Value},
    d.force.Gives session a₁ (.object o) a₂ → e.force.Gives session a₂ (.string s) a₃ →
    f.force.Gives session a₃ (.bool includeHidden) a →
    ((Task.builtin (.library .objectHasEx) [d, e, f]).Gives session a₁ r b ↔
      ∃ name names, a.names.tryIntern s = .ok (name, names) ∧ b = { a with names } ∧
        r = .bool (o.hasField name includeHidden))
  hasText : ∀ {s : String} {name : Name} {names : Interner} {includeHidden : Bool},
    a.names.tryIntern s = .ok (name, names) →
    (o.hasField name includeHidden = true ↔
      s ∈ (o.sortedFields a.names includeHidden).map a.names.lookup)
  fields : ∀ {a₁ a₂ : State} {d e : Deferred} {includeHidden : Bool},
    d.force.Gives session a₁ (.object o) a₂ → e.force.Gives session a₂ (.bool includeHidden) a →
    (Task.builtin (.library .objectFieldsEx) [d, e]).Gives session a₁
      (.ofList ((o.sortedFields a.names includeHidden).map fun name =>
        .string (a.names.lookup name))) a
  keys : ∀ {layout : Layout} {s : String} {b : State},
    ((Value.object o).manifest layout).Gives session a s b →
    ∃ fields, s = (Document.object fields).render layout ∧
      fields.map Prod.fst = (o.sortedFields a.names false).map a.names.lookup

/-- All fields that are listed have names that the interner has given out. -/
theorem gives_of_mem {o : Object} {names : Interner}
    (named : ∀ name ∈ o.fieldNames true, names.Gives name) {includeHidden : Bool} {name : Name}
    (hname : name ∈ o.fieldNames includeHidden) :
  names.Gives name
  := by
  apply named
  rw [mem_fieldNames_iff_lookup] at hname ⊢
  exact hname.imp fun _ hv => ⟨.inl rfl, hv.2⟩

namespace WellFormed

variable {o : Object} (h : o.WellFormed)

include h

theorem answers (name : Name) :
  o.Answers name
  := by
  have visible : o.hasField name false = true ↔
      ∃ v, o.visibility.lookup name = some v ∧ v ≠ .hidden := by
    rw [hasField]
    cases o.visibility.lookup name <;> simp
  refine ⟨h.mem_fieldNames_true name, Iff.rfl, h.lookup_visibility_eq name, ?_, visible⟩
  rw [visible, mem_fieldNames_iff_lookup]
  simp only [Bool.false_eq_true, false_or, and_comm]

theorem hasField_iff (name : Name) (includeHidden : Bool) :
  o.hasField name includeHidden = true ↔ name ∈ o.fieldNames includeHidden
  := by
  have answers := h.answers name
  cases includeHidden with
  | true => exact answers.defined.symm.trans answers.listed.symm
  | false => exact answers.shown.symm

variable {names : Interner} (named : ∀ name ∈ o.fieldNames true, names.Gives name)

include named

omit h in
theorem lists (includeHidden : Bool) :
  o.Lists names includeHidden
  where
  once := o.nodup_fieldNames includeHidden
  sorted := pairwise_sortNames (o.nodup_fieldNames includeHidden) fun _ => gives_of_mem named
  perm := perm_sortNames names _

/-- An object has the field of a string if and only if the string is listed. A string that has
not had a name yet is the name of no field. -/
theorem hasField_iff_mem_texts {s : String} {name : Name} {later : Interner}
    {includeHidden : Bool} (interned : names.tryIntern s = .ok (name, later)) :
  o.hasField name includeHidden = true ↔
    s ∈ (o.sortedFields names includeHidden).map names.lookup
  := by
  obtain ⟨hle, numbers⟩ := Interner.tryIntern_ok interned
  have text : later.lookup name = s := by
    rw [Interner.lookup_eq, numbers.string]
    rfl
  have same : ∀ n ∈ o.fieldNames includeHidden, later.lookup n = names.lookup n :=
    fun n hn => (gives_of_mem named hn).knows.lookup_eq hle
  rw [h.hasField_iff, sortedFields, ((perm_sortNames names _).map names.lookup).mem_iff,
    List.mem_map]
  constructor
  · intro hname
    exact ⟨name, hname, (same name hname).symm.trans text⟩
  · rintro ⟨n, hn, rfl⟩
    have gives := (gives_of_mem named hn).mono hle
    rwa [← gives.unique ⟨_, numbers⟩ ((same n hn).trans text.symm)]

end WellFormed

/-- The queries for the fields of an object agree with each other, and so do those who use them,
as long as the names of the fields come from the interner. -/
theorem WellFormed.queries_agree {o : Object} (h : o.WellFormed) {session : Session}
    (appends : session.frontEnd.Appends) {a : State}
    (named : ∀ name ∈ o.fieldNames true, a.names.Gives name) :
  (∀ name, o.Answers name) ∧ (∀ includeHidden, o.Lists a.names includeHidden) ∧
    o.Serves session a
  := by
  refine ⟨h.answers, lists named, ?_, ?_, h.hasField_iff_mem_texts named, ?_, ?_⟩
  · intro a₁ d forced
    exact Task.Gives.builtin_iff.mpr (forced.bind (.pure _))
  · intro a₁ a₂ a₃ b d e f s includeHidden r hd he hf
    exact Task.Gives.builtin_iff.trans (gives_hasField_iff hd he hf)
  · intro a₁ a₂ d e includeHidden hd he
    have object : ((Value.object o).expectObject .unknown).Gives session a₂ o a₂ := .pure o
    have flag : ((Value.bool includeHidden).expectBool .unknown).Gives session a includeHidden a :=
      .pure includeHidden
    have sorted : (Jsonnet.sortedFields o includeHidden).Gives session a
        (o.sortedFields a.names includeHidden) a := .take rfl
    exact Task.Gives.builtin_iff.mpr
      (hd.bind (object.bind (he.bind (flag.bind (sorted.bind (gives_fieldTexts a [] _))))))
  · intro layout s b
    exact keys_of_manifest appends fun name => gives_of_mem named

/-- A field that a literal hides and the literal to its right inherits: it is found, but it is not
listed, and nothing shows it. -/
theorem queries_agree_of_hidden :
  let left : Leaf := ⟨⟨0⟩, .empty, [(.empty, ⟨.hidden, .ready .null⟩)], []⟩
  let right : Leaf := ⟨⟨1⟩, .empty, [(.empty, ⟨.inherit, .ready .null⟩)], []⟩
  let o : Object := .combine ⟨2⟩ (.leaf left) (.leaf right)
  let a : State := .new .onlyEmpty 5
  o.WellFormed ∧ Session.bare.frontEnd.Appends ∧ (∀ name ∈ o.fieldNames true, a.names.Gives name) ∧
    o.visibility.lookup .empty = some .hidden ∧ o.hasField .empty false = false ∧
    (o.sortedFields a.names false).Perm (o.fieldNames false) ∧ o.Serves .bare a
  := by
  intro left right o a
  have wellFormed : o.WellFormed := ⟨.combine _ (.leaf _) (.leaf _), by decide⟩
  have appends : Session.bare.frontEnd.Appends := fun _ _ _ => le_rfl
  have named : ∀ name ∈ o.fieldNames true, a.names.Gives name := by
    intro name hname
    cases List.mem_singleton.mp hname
    exact a.names.gives_empty
  obtain ⟨answers, lists, serves⟩ := wellFormed.queries_agree appends named
  have empty := answers .empty
  have hidden : o.visibility.lookup .empty = some .hidden := empty.visibility.trans rfl
  refine ⟨wellFormed, appends, named, hidden, ?_, (lists false).perm, serves⟩
  rw [Bool.eq_false_iff, ne_eq, empty.visible, hidden]
  simp

end Object

/-! ### Objects at hand -/

/-- The standard that asks of literals to define each of their fields once. -/
def Standard.definingOnce : Standard :=
  { Standard.any with
    fields := List.Nodup
    once := id }

theorem Standard.definingOnce_lax :
  Standard.definingOnce.Lax
  := ⟨fun _ => trivial, fun _ => trivial, fun _ => trivial⟩

theorem Object.IsProper.wellFormed {made : List Object} {o : Object}
    (h : o.IsProper .definingOnce made) :
  o.WellFormed
  where
  composed := h.composed
  once := by
    intro l hl
    rw [← o.map_fst_leavesFrom 0] at hl
    obtain ⟨⟨l, depth⟩, hleaf, rfl⟩ := List.mem_map.mp hl
    exact (h.leaf_of_mem hleaf).names

/-- The fields of the library are named after its functions, where there is room for the names. -/
theorem libraryFields_texts {names : Interner} {functions : List LibraryFunction}
    (room : names.HasRoom (functions.map LibraryFunction.name)) :
  ((libraryFields names functions).1.map Prod.fst).map (libraryFields names functions).2.lookup
    = functions.map LibraryFunction.name
  := by
  induction functions generalizing names with
  | nil => rfl
  | cons f rest ih =>
    obtain ⟨room, numbers⟩ := room.intern
    have first := numbers.mono (libraryFields_given (names.intern f.name).2 rest).1
    simp only [libraryFields, List.map_cons]
    rw [ih room, Interner.lookup_eq, first.string]
    rfl

theorem LibraryFunction.nodup_names :
  (all.map name).Nodup
  := by decide

/-- The library of a new session is well-formed, where there is room for the names of its
functions. -/
theorem Setup.library_wellFormed (setup : Setup) {names : Interner}
    (room : names.HasRoom (LibraryFunction.all.map LibraryFunction.name)) :
  (setup.start names).1.library.WellFormed
  := by
  have texts := libraryFields_texts room
  rw [start]
  generalize libraryFields names LibraryFunction.all = library at texts ⊢
  obtain ⟨fields, later⟩ := library
  dsimp only at texts ⊢
  refine ⟨.leaf _, ?_⟩
  intro l hl
  cases List.mem_singleton.mp hl
  have once := LibraryFunction.nodup_names
  rw [← texts] at once
  exact once.of_map _

/-- Every object at hand in a call of a client is well-formed, whatever was called before it and
whatever that came to, and whether or not the call comes to an end: a literal that would define
a field again does not come to an object. -/
theorem Session.History.wellFormed {session : Session} {names : Interner}
    (prepared : session.Prepared names) (library : session.library.WellFormed) {limit : Nat}
    {calls : List (Call × State)} {a : State} {values : List Value}
    (h : session.History (.new names limit) calls a values) {call : Call}
    (uses : call.Uses values) {s : State} {whole : Datum}
    (held : call.AtHand session values a s whole) {o : Object}
    (inside : (Datum.value (.object o)).Inside whole) :
  o.WellFormed
  := by
  have lax := Standard.definingOnce_lax
  have supplies := lax.supplies session s.imports
  obtain ⟨made, proper, hvalues⟩ := h.proper prepared library.once (Interner.onlyEmpty_le names)
    supplies (fun c _ => lax.meets c.1) (fun c _ => .of_lax lax _ c.2) held.imports
  obtain ⟨more, state, whole⟩ := held.proper supplies proper hvalues uses (lax.meets call)
    (.of_lax lax _ a) (.refl _)
  cases inside.proper state whole with
  | object madeIn => exact (state.object madeIn).wellFormed

end Jsonnet
