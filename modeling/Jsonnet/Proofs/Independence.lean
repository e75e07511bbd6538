import Jsonnet.Proofs.Documents
import Jsonnet.Proofs.Renaming

/-!
# Evaluations are independent

Evaluations that share an interner do not influence each other, although strings are numbered in
the order in which they are met: a text under a file name comes to the same on every interner, if
the front end uses the interner only to turn strings into names and no shard gets full. The front
end for JSON is of this kind.
-/

namespace Jsonnet

/-! ### The front end for JSON -/

open Term (Storing building naming)

/-- The strings that are named while something is stored, in their order. -/
def Spelled {α : Type} (strings : List String) (x : Storing α) : Prop :=
  ∀ names arena, (x.run (names, arena)).2.1 = (names.internAll strings).2

/-- Whether storing two things with two interners appends the same up to names, as long as the
interners may grow to two that have no full shard. -/
structure StoredAlike {α : Type} (final final' : Interner) (strings : List String)
    (x y : Storing α) (P : α → α → Prop) : Prop where
  renamed : ∀ {names names' : Interner} {arena arena' : Arena},
    (names.internAll strings).2 ≤ final → (names'.internAll strings).2 ≤ final' →
    arena.Renamed (final.Same final') arena' →
    (x.run (names, arena)).2.2.Renamed (final.Same final') (y.run (names', arena')).2.2 ∧
      P (x.run (names, arena)).1 (y.run (names', arena')).1

section

variable {α β : Type} {strings more : List String}

theorem Spelled.bind {x : Storing α} {next : α → Storing β} (hx : Spelled strings x)
    (hnext : ∀ result, Spelled more (next result)) :
  Spelled (strings ++ more) (x >>= next)
  := by
  intro names arena
  rw [Interner.internAll_append, ← hx names arena]
  exact hnext _ _ _

/-- A step that names no strings may come last. -/
theorem Spelled.last {x : Storing α} {next : α → Storing β} (hx : Spelled strings x)
    (hnext : ∀ result, Spelled [] (next result)) :
  Spelled strings (x >>= next)
  := by
  have h := hx.bind hnext
  rw [List.append_nil] at h
  exact h

theorem Spelled.pure (result : α) :
  Spelled [] (Pure.pure result : Storing α)
  := fun _ _ => rfl

theorem spelled_naming (s : String) :
  Spelled [s] (naming s)
  := fun _ _ => rfl

theorem Spelled.building (step : Build α) :
  Spelled [] (building step)
  := fun _ _ => rfl

namespace StoredAlike

variable {final final' : Interner}

theorem pure {P : α → α → Prop} {result result' : α} (holds : P result result') :
  StoredAlike final final' [] (Pure.pure result) (Pure.pure result') P
  := ⟨fun _ _ arenas => ⟨arenas, holds⟩⟩

theorem bind {x y : Storing α} {next next' : α → Storing β} {P : α → α → Prop}
    {Q : β → β → Prop} (hx : Spelled strings x) (hy : Spelled strings y)
    (h : StoredAlike final final' strings x y P)
    (hnext : ∀ r r', P r r' → StoredAlike final final' more (next r) (next' r') Q) :
  StoredAlike final final' (strings ++ more) (x >>= next) (y >>= next') Q
  := by
  constructor
  intro names names' arena arena' hle hle' arenas
  rw [Interner.internAll_append] at hle hle'
  obtain ⟨arenas, result⟩ := h.renamed ((Interner.le_internAll _ more).trans hle)
    ((Interner.le_internAll _ more).trans hle') arenas
  rw [← hx names arena] at hle
  rw [← hy names' arena'] at hle'
  exact (hnext _ _ result).renamed hle hle' arenas

/-- A step that names no strings may come last. -/
theorem last {x y : Storing α} {next next' : α → Storing β} {P : α → α → Prop}
    {Q : β → β → Prop} (hx : Spelled strings x) (hy : Spelled strings y)
    (h : StoredAlike final final' strings x y P)
    (hnext : ∀ r r', P r r' → StoredAlike final final' [] (next r) (next' r') Q) :
  StoredAlike final final' strings (x >>= next) (y >>= next') Q
  := by
  have h := bind hx hy h hnext
  rw [List.append_nil] at h
  exact h

theorem building {x y : Build α} {P : α → α → Prop}
    (h : ∀ {arena arena' : Arena}, arena.Renamed (final.Same final') arena' →
      (x.run arena).2.Renamed (final.Same final') (y.run arena').2 ∧
        P (x.run arena).1 (y.run arena').1) :
  StoredAlike final final' [] (Term.building x) (Term.building y) P
  := ⟨fun _ _ arenas => h arenas⟩

/-- A string gets a name in both interners. -/
theorem naming (spare : final.HasSpare) (spare' : final'.HasSpare) (s : String) :
  StoredAlike final final' [s] (Term.naming s) (Term.naming s) (final.Same final')
  := by
  constructor
  intro names names' arena arena' hle hle' arenas
  have hnames := (spare.mono ((names.le_intern s).trans hle)).numbers_intern s
  have hnames' := (spare'.mono ((names'.le_intern s).trans hle')).numbers_intern s
  exact ⟨arenas, s, hnames.mono hle, hnames'.mono hle'⟩

end StoredAlike

end

namespace Arena.Renamed

variable {ν : Name → Name → Prop} {a a' : Arena} (h : a.Renamed ν a')

include h

/-- A node is appended in the same place. -/
theorem alloc {node node' : Node} (span : Span) (same : node.Renamed ν node') :
  ((Build.alloc node span).run a).2.Renamed ν ((Build.alloc node' span).run a').2 ∧
    ((Build.alloc node span).run a).1 = ((Build.alloc node' span).run a').1
  := by
  have hsize : a.nodes.size = a'.nodes.size := by
    rw [← Array.length_toList, ← Array.length_toList]
    exact h.nodes.length_eq
  refine ⟨{ h with nodes := ?_, spans := congrArg (·.push span) h.spans }, congrArg NodeId.mk hsize⟩
  change List.Forall₂ _ (a.nodes.push node).toList (a'.nodes.push node').toList
  rw [Array.toList_push, Array.toList_push]
  exact List.rel_append h.nodes (.cons same .nil)

theorem array (elements : List NodeId) (span : Span) :
  ((Build.array elements span).run a).2.Renamed ν ((Build.array elements span).run a').2 ∧
    ((Build.array elements span).run a).1 = ((Build.array elements span).run a').1
  := by
  have appended : Arena.Renamed ν { a with lists := a.lists ++ elements }
      { a' with lists := a'.lists ++ elements } :=
    { h with lists := by rw [h.lists] }
  have same : Node.Renamed ν (.array (Build.sliceOf a.lists.size elements.length))
      (.array (Build.sliceOf a'.lists.size elements.length)) := by
    rw [h.lists]
    exact .nameless _ rfl
  exact appended.alloc span same

theorem object (fields : List FieldDef) (span : Span) :
  ((Build.object [] fields span).run a).2.Renamed ν ((Build.object [] fields span).run a').2 ∧
    ((Build.object [] fields span).run a).1 = ((Build.object [] fields span).run a').1
  := by
  have appended : Arena.Renamed ν
      { a with lists := a.lists ++ ([] : List NodeId), fields := a.fields ++ fields }
      { a' with lists := a'.lists ++ ([] : List NodeId), fields := a'.fields ++ fields } :=
    { h with lists := by rw [h.lists], fields := by rw [h.fields] }
  have same : Node.Renamed ν (.object .empty (Build.sliceOf a.fields.size fields.length))
      (.object .empty (Build.sliceOf a'.fields.size fields.length)) := by
    rw [h.fields]
    exact .nameless _ rfl
  exact appended.alloc span same

theorem field {name name' : Name} (same : ν name name') (visibility : Visibility) (body : NodeId) :
  ((Build.field name visibility body).run a).2.Renamed ν
      ((Build.field name' visibility body).run a').2 ∧
    ((Build.field name visibility body).run a).1 = ((Build.field name' visibility body).run a').1
  := by
  obtain ⟨arenas, hid⟩ := h.alloc .none (.string same)
  exact ⟨arenas, congrArg (fun id => FieldDef.mk id visibility body false) hid⟩

end Arena.Renamed

namespace Document

mutual

theorem spelled_store : ∀ document : Document, Spelled document.strings document.store
  | .null | .bool _ | .number _ | .string _ => fun _ _ => rfl
  | .array elements => (spelled_storeElements elements).last fun _ => .building _
  | .object fields => (spelled_storeFields fields).last fun _ => .building _

theorem spelled_storeElements : ∀ elements : List Document,
    Spelled (stringsOfElements elements) (storeElements elements)
  | [] => fun _ _ => rfl
  | element :: others => (spelled_store element).bind fun _ =>
    (spelled_storeElements others).last fun _ => .pure _

theorem spelled_storeFields : ∀ fields : List (String × Document),
    Spelled (stringsOfFields fields) (storeFields fields)
  | [] => fun _ _ => rfl
  | (key, value) :: others => (spelled_store value).bind fun _ =>
    Spelled.bind (spelled_naming key) fun _ => (Spelled.building _).bind fun _ =>
      (spelled_storeFields others).last fun _ => .pure _

end

section

variable {final final' : Interner}

mutual

/-- A document is stored alike with two interners. -/
theorem storedAlike_store (spare : final.HasSpare) (spare' : final'.HasSpare) : ∀ document : Document,
    StoredAlike final final' document.strings document.store document.store Eq
  | .null | .bool _ | .number _ => .building fun arenas => arenas.alloc .none (.nameless _ rfl)
  | .string s => by
    apply StoredAlike.last (spelled_naming s) (spelled_naming s) (.naming spare spare' s)
    intro name name' same
    exact .building fun arenas => arenas.alloc .none (.string same)
  | .array elements => by
    have spelled := spelled_storeElements elements
    apply StoredAlike.last spelled spelled (storedAlike_storeElements spare spare' elements)
    rintro ids _ rfl
    exact .building fun arenas => arenas.array ids .none
  | .object fields => by
    have spelled := spelled_storeFields fields
    apply StoredAlike.last spelled spelled (storedAlike_storeFields spare spare' fields)
    rintro definitions _ rfl
    exact .building fun arenas => arenas.object definitions .none

theorem storedAlike_storeElements (spare : final.HasSpare) (spare' : final'.HasSpare) :
    ∀ elements : List Document,
    StoredAlike final final' (stringsOfElements elements) (storeElements elements)
      (storeElements elements) Eq
  | [] => .pure rfl
  | element :: others => by
    have spelled := spelled_store element
    apply StoredAlike.bind spelled spelled (storedAlike_store spare spare' element)
    rintro id _ rfl
    have spelled := spelled_storeElements others
    apply StoredAlike.last spelled spelled (storedAlike_storeElements spare spare' others)
    rintro ids _ rfl
    exact .pure rfl

theorem storedAlike_storeFields (spare : final.HasSpare) (spare' : final'.HasSpare) :
    ∀ fields : List (String × Document),
    StoredAlike final final' (stringsOfFields fields) (storeFields fields) (storeFields fields) Eq
  | [] => .pure rfl
  | (key, value) :: others => by
    have spelled := spelled_store value
    apply StoredAlike.bind spelled spelled (storedAlike_store spare spare' value)
    rintro body _ rfl
    apply StoredAlike.bind (spelled_naming key) (spelled_naming key) (.naming spare spare' key)
    intro name name' same
    apply StoredAlike.bind (Spelled.building _) (Spelled.building _)
      (.building fun arenas => arenas.field same .inherit body)
    rintro definition _ rfl
    have spelled := spelled_storeFields others
    apply StoredAlike.last spelled spelled (storedAlike_storeFields spare spare' others)
    rintro definitions _ rfl
    exact .pure rfl

end

end

end Document

/-- The front end for JSON uses the interner only to turn strings into names. -/
theorem Json.frontEnd_onlyNames :
  frontEnd.OnlyNames
  := by
  have hstrings : ∀ file source, ∃ strings, ∀ names : Interner,
      (frontEnd names file source).2 = (names.internAll (file :: strings)).2 := by
    intro file source
    cases h : readDocument source with
    | error e =>
      refine ⟨[], fun names => ?_⟩
      rw [frontEnd, h]
      rfl
    | ok document =>
      refine ⟨document.strings, fun names => ?_⟩
      rw [frontEnd, h]
      exact document.spelled_store _ _
  refine ⟨?_, fun file source => ?_, ?_⟩
  · intro names file source
    obtain ⟨strings, h⟩ := hstrings file source
    rw [h]
    exact names.le_internAll _
  · obtain ⟨strings, h⟩ := hstrings file source
    exact ⟨file :: strings, fun names _ => h names⟩
  · intro file source names names' spare spare'
    have hstart : ∀ names : Interner, (names.intern file).2 ≤ (frontEnd names file source).2 := by
      intro names
      obtain ⟨strings, h⟩ := hstrings file source
      rw [h]
      exact Interner.le_internAll _ strings
    have hfile : Interner.Same (frontEnd names file source).2 (frontEnd names' file source).2
        (names.intern file).1 (names'.intern file).1 := by
      have hnames := (spare.mono ((names.le_intern file).trans (hstart names))).numbers_intern file
      have hnames' :=
        (spare'.mono ((names'.le_intern file).trans (hstart names'))).numbers_intern file
      exact ⟨file, hnames.mono (hstart names), hnames'.mono (hstart names')⟩
    unfold frontEnd at spare spare' hfile ⊢
    cases h : readDocument source with
    | error e =>
      simp only [h] at hfile ⊢
      exact .rejected _ (.some ⟨hfile, rfl⟩)
    | ok document =>
      simp only [h] at spare spare' hfile ⊢
      have arenas : Arena.Renamed (Interner.Same _ _) (Arena.new (names.intern file).1)
          (Arena.new (names'.intern file).1) :=
        ⟨hfile, .nil, rfl, rfl, .nil, .nil, rfl⟩
      obtain ⟨stored, root⟩ := (document.storedAlike_store spare spare').renamed
        (document.spelled_store _ _).ge (document.spelled_store _ _).ge arenas
      exact .program ⟨⟨stored, root⟩, fun _ => trivial⟩

/-! ### Evaluations -/

/-- A failure as it is told, with the file of an error in a text spelled out. -/
def Failure.told (names : Interner) : Failure → Failure × Option (String × Span)
  | .static error => (.static ⟨error.message, none⟩,
      error.location.map fun location => (names.lookup location.file, location.span))
  | failure => (failure, none)

/-- Failures that differ by names of the same strings are told in the same way. -/
theorem Failure.Akin.told_eq {names names' : Interner} {f f' : Failure}
    (h : f.Akin (names.Same names') f') :
  f.told names = f'.told names'
  := by
  cases h with
  | runtime cause trace => rfl
  | internal message => rfl
  | breakdown message => rfl
  | static message location =>
    cases location with
    | none => rfl
    | some same =>
      simp only [told, Option.map_some]
      rw [same.file.lookup_eq, same.span]

/-- The interners that a setup comes to by evaluating texts, one after the other, beginning with a
new one. -/
inductive Setup.Reaches (setup : Setup) : Interner → Prop where
  | new : Reaches setup .new
  | evaluation {names later : Interner} {fuel : Nat} {file source : String}
      {outcome : Except Failure String} (before : Reaches setup names)
      (run : setup.evaluateSnippet names fuel file source = some (outcome, later)) :
    Reaches setup later

/-- A text that is compiled to a program comes to what the program does in a new session. -/
theorem Setup.evaluateSnippet_program {setup : Setup} {names known : Interner}
    {file source : String} {code : Code}
    (compiles : setup.frontEnd names file source = (.program code, known)) (fuel : Nat) :
  setup.evaluateSnippet names fuel file source
    = (code.output.run (setup.start known).1 fuel (setup.start known).2).map
        fun x => (x.1, x.2.names)
  := by
  rw [evaluateSnippet, compiles]

/-- What runs in a new session only adds to the interner. -/
theorem Setup.le_run {setup : Setup} (appends : setup.frontEnd.Appends) {names : Interner}
    {α : Type} {action : Action α} {fuel : Nat} {x : Outcome α}
    (run : action.run (setup.start names).1 fuel (setup.start names).2 = some x) :
  names ≤ x.2.names
  := by
  obtain ⟨n, hn⟩ := Action.run_iff.mp ⟨fuel, run⟩
  have grows := Progress.grows Task.grows hn
  rw [← setup.start_frontEnd names] at appends
  exact (setup.le_start names).trans (grows.names appends)

/-- An evaluation only adds to the interner. -/
theorem Setup.le_evaluateSnippet {setup : Setup} (appends : setup.frontEnd.Appends)
    {names later : Interner} {fuel : Nat} {file source : String} {outcome : Except Failure String}
    (run : setup.evaluateSnippet names fuel file source = some (outcome, later)) :
  names ≤ later
  := by
  have hle := appends names file source
  rcases hcompiled : setup.frontEnd names file source with ⟨code | error | message, known⟩
  · rw [hcompiled] at hle
    rw [evaluateSnippet_program hcompiled, Option.map_eq_some_iff] at run
    obtain ⟨x, hx, heq⟩ := run
    cases heq
    exact hle.trans (setup.le_run appends hx)
  all_goals
    rw [hcompiled] at hle
    rw [evaluateSnippet, hcompiled] at run
    cases run
    exact hle

theorem Setup.Reaches.le {setup : Setup} (appends : setup.frontEnd.Appends) {names : Interner}
    (h : setup.Reaches names) :
  .new ≤ names
  := by
  induction h with
  | new => exact le_rfl
  | evaluation _ run ih => exact ih.trans (setup.le_evaluateSnippet appends run)

/-- A text under a file name comes to the same with any two interners, as long as there is room
for the strings of both. -/
theorem Setup.evaluateSnippet_alike {setup : Setup} (onlyNames : setup.frontEnd.OnlyNames)
    {names names' later : Interner} {fuel : Nat} {file source : String}
    {outcome : Except Failure String}
    (run : setup.evaluateSnippet names fuel file source = some (outcome, later))
    (fits : later.FitsWith names') :
  ∃ fuel' outcome' later',
    setup.evaluateSnippet names' fuel' file source = some (outcome', later') ∧
      outcome'.mapError (·.told later') = outcome.mapError (·.told later)
  := by
  let A := Accord.renaming onlyNames names'
  have covers : names.Covers names' names' := fun _ => Finset.subset_union_right
  let w : Bond := ⟨names.Same names', fun _ => False, fun _ => False, .empty names names',
    Interner.Same.left_unique, Interner.Same.right_unique⟩
  have compiled := A.compile (w := w) file source ⟨fun _ _ => Iff.rfl, covers⟩
  rcases hx : setup.frontEnd names file source with ⟨x, known⟩
  rcases hy : setup.frontEnd names' file source with ⟨y, known'⟩
  rw [hx, hy] at compiled
  cases x with
  | rejected error =>
    rw [evaluateSnippet, hx] at run
    cases run
    obtain ⟨w', -, holds, akin⟩ := compiled fits
    cases akin with
    | rejected message location =>
      refine ⟨0, _, known', by rw [evaluateSnippet, hy], ?_⟩
      have akin : Failure.Akin w'.name _ _ := .static message location
      rw [Except.mapError, Except.mapError, (akin.mono fun n n' => (holds.1 n n').mp).told_eq]
  | broken message =>
    rw [evaluateSnippet, hx] at run
    cases run
    obtain ⟨w', -, -, akin⟩ := compiled fits
    cases akin with
    | broken => exact ⟨0, _, known', by rw [evaluateSnippet, hy], rfl⟩
  | program code =>
    rw [evaluateSnippet_program hx, Option.map_eq_some_iff] at run
    obtain ⟨x, run, heq⟩ := run
    cases heq
    obtain ⟨w', hle, holds, akin⟩ := compiled (fits.mono (setup.le_run onlyNames.appends run))
    cases akin with
    | @program _ code' code =>
      have hthunk : ∀ t, ¬ w'.thunk t := fun t => hle.thunk ▸ id
      have hslot : ∀ s, ¬ w'.slot s := fun s => hle.slot ▸ id
      obtain ⟨fuel', y, run', hends⟩ :=
        Setup.output_akin A hthunk hslot holds code run ⟨fits, fun dead => dead.elim⟩
      refine ⟨fuel', y.1, y.2.names, by rw [evaluateSnippet_program hy, run', Option.map_some], ?_⟩
      cases hends with
      | ok le meets result =>
        cases result
        rfl
      | error le meets failure =>
        have akin := failure.mono fun n n' => (meets.holds.1 n n').mp
        dsimp only
        rw [Except.mapError, Except.mapError, akin.told_eq]

/-- Evaluations are independent. After any earlier evaluations, whatever they came to, a text under
a file name comes to the same text, or to a failure that is told in the same way, its backtrace
included, as in a new interpreter with the same settings; or neither comes to an end. No shard of
the interner may get full. -/
theorem Setup.Reaches.evaluations_independent {setup : Setup} {names : Interner}
    (reaches : setup.Reaches names) (onlyNames : setup.frontEnd.OnlyNames)
    (file source : String) :
  (∀ fuel outcome later,
      setup.evaluateSnippet names fuel file source = some (outcome, later) → later.HasSpare →
      ∃ fuel' outcome' later',
        setup.evaluateSnippet .new fuel' file source = some (outcome', later') ∧
          outcome'.mapError (·.told later') = outcome.mapError (·.told later)) ∧
    ∀ fuel outcome later,
      setup.evaluateSnippet .new fuel file source = some (outcome, later) → later.FitsWith names →
      ∃ fuel' outcome' later',
        setup.evaluateSnippet names fuel' file source = some (outcome', later') ∧
          outcome'.mapError (·.told later') = outcome.mapError (·.told later)
  := by
  constructor
  · intro fuel outcome later run spare
    have hle := (reaches.le onlyNames.appends).trans (setup.le_evaluateSnippet onlyNames.appends run)
    exact setup.evaluateSnippet_alike onlyNames run (spare.fitsWith hle)
  · intro fuel outcome later run fits
    exact setup.evaluateSnippet_alike onlyNames run fits

theorem libraryFields_names (names : Interner) (functions : List LibraryFunction) :
  (libraryFields names functions).2 = (names.internAll (functions.map LibraryFunction.name)).2
  := by
  induction functions generalizing names with
  | nil => rfl
  | cons f rest ih => exact ih _

/-- A setup in which nothing is given from outside begins with a few more strings. -/
theorem Setup.size_start_le (setup : Setup) (hexternals : setup.externals = [])
    (harguments : setup.arguments = []) (names : Interner) (index : Fin 16) :
  ((setup.start names).2.names.shards.get index).strings.size
    ≤ (names.shards.get index).strings.size + (LibraryFunction.all.length + 4)
  := by
  have hnames : (setup.start names).2.names
      = ((libraryFields names LibraryFunction.all).2.internAll
          ["std", "arg", "array_element", "rhs"]).2 := by
    rw [start, hexternals, harguments]
    generalize libraryFields names LibraryFunction.all = library
    simp only [internExternals, Interner.internAll]
  have h := Interner.size_internAll_le names
    (LibraryFunction.all.map LibraryFunction.name ++ ["std", "arg", "array_element", "rhs"]) index
  rw [Interner.internAll_append, ← libraryFields_names, ← hnames, List.length_append,
    List.length_map] at h
  have hlength : ["std", "arg", "array_element", "rhs"].length = 4 := rfl
  rw [hlength] at h
  exact h

/-- A program that is a string comes to the string, and names nothing else. -/
theorem Code.run_string (session : Session) (names : Interner) (file name : Name) (span : Span) :
  ∃ b, (Code.mk { file, nodes := #[.string name], spans := #[span] } ⟨0⟩).output.run session 60
      (.new names 2) = some (.ok ((Document.string (names.lookup name)).render .multiLine ++ "\n"), b) ∧
    b.names = names
  := ⟨_, rfl, rfl⟩

/-- After a text that is no document, a string comes to the same as on a new interner, which does
not know the name of the first file. -/
theorem Setup.evaluations_independent_of_rejected :
  ∃ names, jsonOnly.Reaches names ∧ jsonOnly.frontEnd.OnlyNames ∧ ∃ fuel later,
    jsonOnly.evaluateSnippet names fuel "second.json" "\"x\"" = some (.ok "\"x\"\n", later)
  := by
  have json : jsonOnly.frontEnd = Json.frontEnd := rfl
  obtain ⟨e, rejects⟩ : ∃ e, Json.readDocument "[" = .error e := ⟨_, rfl⟩
  obtain ⟨error, first⟩ : ∃ error, jsonOnly.evaluateSnippet .new 0 "first.json" "["
      = some (.error error, (Interner.new.intern "first.json").2) := by
    refine ⟨.static (Json.staticError "first.json" (Interner.new.intern "first.json").1 "[" e), ?_⟩
    rw [evaluateSnippet, json, Json.frontEnd, rejects]
  have reaches : jsonOnly.Reaches _ := .evaluation .new first
  -- There is room for a few more strings in a new interner.
  have small : ∀ strings : List String, strings.length ≤ 2 → ∀ index : Fin 16,
      ((Interner.new.internAll strings).2.shards.get index).strings.size ≤ 40 := by
    intro strings hlength index
    have hempty := Interner.size_onlyEmpty_le index
    have hnew := Interner.size_internAll_le .onlyEmpty
      (Interner.reservedWords ++ Interner.libraryNames) index
    have hmore := Interner.size_internAll_le .new strings index
    have hwords : (Interner.reservedWords ++ Interner.libraryNames).length = 37 := rfl
    rw [← Interner.new] at hnew
    omega
  have spare : (Interner.new.internAll ["second.json", "x"]).2.HasSpare := fun index =>
    (small _ le_rfl index).trans (by decide)
  let file := Interner.new.intern "second.json"
  have numbers : (file.2.intern "x").2.Numbers "x" (file.2.intern "x").1 :=
    (spare.mono (file.2.le_intern "x")).numbers_intern "x"
  have compiles : jsonOnly.frontEnd .new "second.json" "\"x\"" = (.program ⟨{
        file := file.1, nodes := #[.string (file.2.intern "x").1], spans := #[.none] }, ⟨0⟩⟩,
      (file.2.intern "x").2) := by
    rw [json, Json.frontEnd, show Json.readDocument "\"x\"" = .ok (.string "x") from rfl]
    rfl
  have hle := jsonOnly.le_start (file.2.intern "x").2
  have hsize := jsonOnly.size_start_le rfl rfl (file.2.intern "x").2
  obtain ⟨session, start, hstart, -⟩ := jsonOnly.exists_start (file.2.intern "x").2
  rw [hstart] at hle hsize
  obtain ⟨b, run, rfl⟩ := Code.run_string session start file.1 (file.2.intern "x").1 .none
  have hlookup : b.names.lookup (file.2.intern "x").1 = "x" := by
    have hnumbers : b.names.Numbers "x" _ := numbers.mono hle
    rw [Interner.lookup_eq, hnumbers.string]
    rfl
  rw [hlookup] at run
  have second : jsonOnly.evaluateSnippet .new 60 "second.json" "\"x\""
      = some (.ok "\"x\"\n", b.names) := by
    rw [evaluateSnippet_program compiles, hstart]
    exact congrArg (Option.map fun x : Outcome String => (x.1, x.2.names)) run
  have fits : b.names.FitsWith (Interner.new.intern "first.json").2 := by
    apply Interner.fitsWith_of_size_le
    intro index
    have hfirst : ((Interner.new.intern "first.json").2.shards.get index).strings.size ≤ 40 :=
      small ["first.json"] (by decide) index
    have hsecond : ((file.2.intern "x").2.shards.get index).strings.size ≤ 40 :=
      small ["second.json", "x"] le_rfl index
    have hlater : (b.names.shards.get index).strings.size ≤ _ := hsize index
    have hlibrary : LibraryFunction.all.length ≤ 100 := by decide
    rw [Name.maxPosition]
    omega
  obtain ⟨fuel, outcome, later, run', told⟩ :=
    (reaches.evaluations_independent Json.frontEnd_onlyNames "second.json" _).2 60 _ _ second fits
  refine ⟨_, reaches, Json.frontEnd_onlyNames, fuel, later, ?_⟩
  cases outcome with
  | error failure => cases told
  | ok text =>
    cases told
    exact run'

end Jsonnet
