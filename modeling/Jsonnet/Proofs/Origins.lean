import Jsonnet.Proofs.Growth

/-!
# Where thunks and objects come from

The origins of a state tell which suspension every thunk was made from and which object
every number belongs to. A state that stems from its origins has asked the importer and
the front end for everything that its caches hold. Operations only add to origins.
-/

namespace Jsonnet

/-- The suspensions that thunks were made from, and the objects, by their numbers. -/
structure Origins where
  thunks : List Suspension
  objects : List Object

namespace Origins

/-- Origins extend others if those come first in them. -/
instance : LE Origins where
  le O O' := O.thunks <+: O'.thunks ∧ O.objects <+: O'.objects

instance : Preorder Origins where
  le_refl O := ⟨List.prefix_refl _, List.prefix_refl _⟩
  le_trans _ _ _ h h' := ⟨h.1.trans h'.1, h.2.trans h'.2⟩

variable {O O' : Origins}

theorem getElem?_of_prefix {α : Type} {xs ys : List α} (h : xs <+: ys) {i : Nat} {x : α}
    (hx : xs[i]? = some x) :
  ys[i]? = some x
  := by
  obtain ⟨hlt, heq⟩ := List.getElem?_eq_some_iff.mp hx
  rw [List.prefix_iff_getElem?.mp h i hlt, heq]

theorem thunk_mono (h : O ≤ O') {i : Nat} {suspension : Suspension}
    (hi : O.thunks[i]? = some suspension) :
  O'.thunks[i]? = some suspension
  := getElem?_of_prefix h.1 hi

theorem object_mono (h : O ≤ O') {i : Nat} {object : Object}
    (hi : O.objects[i]? = some object) :
  O'.objects[i]? = some object
  := getElem?_of_prefix h.2 hi

end Origins

/-! ### Import caches -/

namespace ImportCache

variable {α : Type} {importer : Importer} {cache : ImportCache α}

/-- A cache whose answers are those of an importer. -/
def Answers (importer : Importer) (cache : ImportCache α) : Prop :=
  ∀ directory path (entry : ImportEntry α), cache.entries[(directory, path)]? = some entry →
    entry.answer = importer directory path

theorem Answers.resolve_eq (h : cache.Answers importer) (directory path : String) :
  (cache.resolve importer directory path).1 = importer directory path
  := by
  rw [resolve]
  split
  case h_1 entry hentry => exact h directory path entry hentry
  case h_2 => rfl

theorem Answers.resolve (h : cache.Answers importer) (directory path : String) :
  (cache.resolve importer directory path).2.Answers importer
  := by
  rw [ImportCache.resolve]
  split
  case h_1 => exact h
  case h_2 =>
    intro d p entry hentry
    rw [Std.HashMap.getElem?_insert] at hentry
    split at hentry
    case isFalse => exact h d p entry hentry
    case isTrue heq =>
      cases beq_iff_eq.mp heq
      cases hentry
      rfl

/-- Asking for a text compiles nothing. -/
theorem code?_resolve (cache : ImportCache α) (importer : Importer)
    (directory path d p : String) :
  (cache.resolve importer directory path).2.code? d p = cache.code? d p
  := by
  rw [ImportCache.resolve]
  split
  case h_1 => rfl
  case h_2 hnone =>
    rw [code?, code?, Std.HashMap.getElem?_insert]
    split
    case isFalse => rfl
    case isTrue heq =>
      cases beq_iff_eq.mp heq
      rw [hnone]
      rfl

/-- The answer to an import that was asked for is known. -/
theorem entry_resolve (cache : ImportCache α) (importer : Importer) (directory path : String) :
  ∃ entry, (cache.resolve importer directory path).2.entries[(directory, path)]? = some entry ∧
    entry.answer = (cache.resolve importer directory path).1
  := by
  rw [ImportCache.resolve]
  split
  case h_1 entry hentry => exact ⟨entry, hentry, rfl⟩
  case h_2 => exact ⟨_, Std.HashMap.getElem?_insert_self, rfl⟩

/-- The code that is set for an import that was asked for is kept with the answer. -/
theorem entry_setCode_resolve (cache : ImportCache α) (importer : Importer)
    (directory path : String) (code : α) :
  ∃ entry, ((cache.resolve importer directory path).2.setCode directory path code).entries[
      (directory, path)]? = some entry ∧
    entry.answer = (cache.resolve importer directory path).1 ∧ entry.code = some code
  := by
  obtain ⟨entry, hentry, hanswer⟩ := cache.entry_resolve importer directory path
  refine ⟨{ entry with code := some code }, ?_, hanswer, rfl⟩
  rw [ImportCache.setCode]
  simp only [hentry]
  exact Std.HashMap.getElem?_insert_self

theorem Answers.setCode (h : cache.Answers importer) (directory path : String) (code : α) :
  (cache.setCode directory path code).Answers importer
  := by
  rw [ImportCache.setCode]
  split
  case h_2 => exact h
  case h_1 old hold =>
    intro d p entry hentry
    rw [Std.HashMap.getElem?_insert] at hentry
    split at hentry
    case isFalse => exact h d p entry hentry
    case isTrue heq =>
      cases beq_iff_eq.mp heq
      cases hentry
      exact h directory path old hold

/-- The codes of a cache that keeps another one. -/
theorem code?_setCode {directory path d p : String} {code found : α}
    (h : (cache.setCode directory path code).code? d p = some found) :
  cache.code? d p = some found ∨ (directory = d ∧ path = p ∧ code = found)
  := by
  rw [ImportCache.setCode] at h
  split at h
  case h_2 => exact .inl h
  case h_1 old hold =>
    rw [code?, Std.HashMap.getElem?_insert] at h
    split at h
    case isFalse => exact .inl h
    case isTrue heq =>
      cases beq_iff_eq.mp heq
      cases h
      exact .inr ⟨rfl, rfl, rfl⟩

end ImportCache

/-! ### Code from outside -/

/-- The name under which code from outside is compiled. -/
def externalFile (kind name : String) : String := s!"<{kind}:{name}>"

/-- The deferred values of a compiled text: a thunk that was made from its program, or a
failure if it was rejected. -/
inductive Deferred.Holds (session : Session) (O : Origins) (names : Interner)
    (file source : String) : Deferred → Prop where
  | program {thunk : ThunkId} {context : FrameContext} {code : Code}
      (compiled : session.frontEnd names file source = (.program code, names))
      (origin : O.thunks[thunk.index]? = some (.code context session.base code)) :
    Holds session O names file source (.shared thunk)
  | rejected {error : StaticError}
      (compiled : session.frontEnd names file source = (.rejected error, names)) :
    Holds session O names file source (.failed (.static error))

/-- The deferred values of an external value. -/
inductive Deferred.IsGiven (session : Session) (O : Origins) (names : Interner)
    (file : String) : External → Deferred → Prop where
  | text (value : String) : IsGiven session O names file (.text value) (.ready (.string value))
  | code {source : String} {deferred : Deferred}
      (holds : deferred.Holds session O names file source) :
    IsGiven session O names file (.code source) deferred

section

variable {session : Session} {O O' : Origins} {names later : Interner}

theorem FrontEnd.Lawful.keep {frontEnd : FrontEnd} (h : frontEnd.Lawful)
    {file source : String} {compiled : Compiled}
    (hcompiled : frontEnd names file source = (compiled, names)) (hle : names ≤ later) :
  frontEnd later file source = (compiled, later)
  := by
  rw [h.again names file source later (by rw [hcompiled]; exact hle), hcompiled]

theorem Deferred.Holds.mono {file source : String} {d : Deferred}
    (lawful : session.frontEnd.Lawful) (h : d.Holds session O names file source)
    (hO : O ≤ O') (hle : names ≤ later) :
  d.Holds session O' later file source
  := by
  cases h with
  | program compiled origin =>
    exact .program (lawful.keep compiled hle) (Origins.thunk_mono hO origin)
  | rejected compiled => exact .rejected (lawful.keep compiled hle)

theorem Deferred.IsGiven.mono {file : String} {given : External} {d : Deferred}
    (lawful : session.frontEnd.Lawful) (h : d.IsGiven session O names file given)
    (hO : O ≤ O') (hle : names ≤ later) :
  d.IsGiven session O' later file given
  := by
  cases h with
  | text value => exact .text value
  | code holds => exact .code (holds.mono lawful hO hle)

end

/-! ### States and their origins -/

/-- A state whose thunks and objects are those of its origins, and whose caches hold what
the importer and the front end have given. -/
structure State.Stems (session : Session) (O : Origins) (a : State) : Prop where
  thunks : a.thunks.size = O.thunks.length
  objects : a.checks.size = O.objects.length
  answers : a.imports.Answers session.importer
  code : ∀ directory path deferred, a.imports.code? directory path = some deferred →
    ∃ file, session.importer directory path = .ok file ∧
      deferred.Holds session O a.names file.foundAt file.content
  external : ∀ (name : Name) (deferred : Deferred), a.externals[name]? = some deferred →
    a.names.Knows name ∧ ∃ given, session.externals.reverse.lookup name = some given ∧
      deferred.IsGiven session O a.names (externalFile "extvar" (a.names.lookup name)) given

/-- What a state and its origins gain: thunks that are pending and objects that are not
checked. -/
structure State.Adds (session : Session) (O : Origins) (a : State) (O' : Origins) (a' : State) :
    Prop where
  thunks : ∃ new, O'.thunks = O.thunks ++ new ∧ a'.thunks = a.thunks ++ new.map Cell.pending
  objects : ∃ new, O'.objects = O.objects ++ new ∧
    a'.checks = a.checks ++ List.replicate new.length AssertionState.notChecked
  fields : a'.fields = a.fields
  stems : a'.Stems session O'

namespace State

variable {session : Session} {O O' : Origins} {a a' : State}

/-- A state that gains origins and names, with the same caches. -/
theorem Stems.extend (h : a.Stems session O) (lawful : session.frontEnd.Lawful)
    (hO : O ≤ O') (hnames : a.names ≤ a'.names) (himports : a'.imports = a.imports)
    (hexternals : a'.externals = a.externals) (hthunks : a'.thunks.size = O'.thunks.length)
    (hobjects : a'.checks.size = O'.objects.length) :
  a'.Stems session O'
  where
  thunks := hthunks
  objects := hobjects
  answers := by
    rw [himports]
    exact h.answers
  code := by
    rw [himports]
    intro directory path d hd
    obtain ⟨file, hfile, holds⟩ := h.code directory path d hd
    exact ⟨file, hfile, holds.mono lawful hO hnames⟩
  external := by
    rw [hexternals]
    intro name d hd
    obtain ⟨known, given, hgiven, hd⟩ := h.external name d hd
    refine ⟨known.mono hnames, given, hgiven, ?_⟩
    rw [known.lookup_eq hnames]
    exact hd.mono lawful hO hnames

namespace Adds

theorem le (h : a.Adds session O O' a') :
  O ≤ O'
  := by
  obtain ⟨ts, hts, -⟩ := h.thunks
  obtain ⟨os, hos, -⟩ := h.objects
  exact ⟨⟨ts, hts.symm⟩, ⟨os, hos.symm⟩⟩

/-- Nothing is gained where only names and caches change. -/
theorem same (hthunks : a'.thunks = a.thunks) (hchecks : a'.checks = a.checks)
    (hfields : a'.fields = a.fields) (stems : a'.Stems session O) :
  a.Adds session O O a'
  where
  thunks := ⟨[], by simp, by simp [hthunks]⟩
  objects := ⟨[], by simp, by simp [hchecks]⟩
  fields := hfields
  stems := stems

end Adds

/-! ### Compiling -/

/-- What compiling a text from outside comes to, or taking what is known of it. -/
inductive Compiles (session : Session) (O : Origins) (a : State) (file source : String) :
    Outcome Deferred → Prop where
  | program {O' : Origins} {a' : State} {thunk : ThunkId} {context : FrameContext} {code : Code}
      (compiled : (session.frontEnd a.names file source).1 = .program code)
      (names : a'.names = (session.frontEnd a.names file source).2)
      (adds : a.Adds session O O' a')
      (origin : O'.thunks[thunk.index]? = some (.code context session.base code)) :
    Compiles session O a file source (.ok (.shared thunk), a')
  | rejected {a' : State} {error : StaticError}
      (compiled : (session.frontEnd a.names file source).1 = .rejected error)
      (names : a'.names = (session.frontEnd a.names file source).2)
      (adds : a.Adds session O O a') :
    Compiles session O a file source (.ok (.failed (.static error)), a')
  | broken {a' : State} {message : String}
      (compiled : (session.frontEnd a.names file source).1 = .broken message)
      (names : a'.names = (session.frontEnd a.names file source).2)
      (adds : a.Adds session O O a') :
    Compiles session O a file source (.error (.breakdown message), a')

/-- What is compiled, from a state that differs by its caches only, and before a change of
the caches that the result allows. -/
theorem Compiles.change {a₁ : State} {file source : String} {x : Except Failure Deferred}
    (lawful : session.frontEnd.Lawful) (h : Compiles session O a₁ file source (x, a'))
    (hnames : a₁.names = a.names) (hthunks : a₁.thunks = a.thunks)
    (hchecks : a₁.checks = a.checks) (hfields : a₁.fields = a.fields)
    (imports : ImportCache Deferred) (externals : Std.HashMap Name Deferred)
    (hstems : ∀ O', a'.Stems session O' →
      (∀ d, x = .ok d → d.Holds session O' a'.names file source) →
      Stems session O' { a' with imports, externals }) :
  Compiles session O a file source (x, { a' with imports, externals })
  := by
  have hadds : ∀ {O'}, a₁.Adds session O O' a' → Stems session O' { a' with imports, externals } →
      a.Adds session O O' { a' with imports, externals } := by
    intro O' h stems
    refine ⟨?_, ?_, ?_, stems⟩
    · rw [← hthunks]
      exact h.thunks
    · rw [← hchecks]
      exact h.objects
    · rw [← hfields]
      exact h.fields
  have hagain : a'.names = (session.frontEnd a₁.names file source).2 →
      session.frontEnd a'.names file source
        = ((session.frontEnd a₁.names file source).1, a'.names) :=
    fun h => lawful.again _ _ _ _ (h ▸ le_rfl)
  cases h with
  | @program O' _ thunk context code compiled names adds origin =>
    refine .program (hnames ▸ compiled) (hnames ▸ names) (hadds adds (hstems O' adds.stems ?_))
      origin
    intro d hd
    cases hd
    exact .program ((hagain names).trans (by rw [compiled])) origin
  | rejected compiled names adds =>
    refine .rejected (hnames ▸ compiled) (hnames ▸ names) (hadds adds (hstems O adds.stems ?_))
    intro d hd
    cases hd
    exact .rejected ((hagain names).trans (by rw [compiled]))
  | broken compiled names adds =>
    refine .broken (hnames ▸ compiled) (hnames ▸ names) (hadds adds (hstems O adds.stems ?_))
    intro d hd
    cases hd

/-- Keeping the code of an import. -/
theorem Stems.setCode (h : a.Stems session O) {directory path : String} {file : ImportedFile}
    (hfile : session.importer directory path = .ok file) {d : Deferred}
    (holds : d.Holds session O a.names file.foundAt file.content) :
  Stems session O { a with imports := a.imports.setCode directory path d }
  := { h with
    answers := h.answers.setCode directory path d
    code := by
      intro directory' path' d' hd
      obtain hd | ⟨rfl, rfl, rfl⟩ := ImportCache.code?_setCode hd
      · exact h.code directory' path' d' hd
      · exact ⟨file, hfile, holds⟩ }

/-- Keeping the value of an external variable. -/
theorem Stems.insertExternal (h : a.Stems session O) {name : Name} {given : External}
    (known : a.names.Knows name)
    (hgiven : session.externals.reverse.lookup name = some given) {d : Deferred}
    (hd : d.IsGiven session O a.names (externalFile "extvar" (a.names.lookup name)) given) :
  Stems session O { a with externals := a.externals.insert name d }
  := { h with
    external := by
      intro other d' hd'
      rw [Std.HashMap.getElem?_insert] at hd'
      split at hd'
      case isFalse => exact h.external other d' hd'
      case isTrue heq =>
        cases beq_iff_eq.mp heq
        cases hd'
        exact ⟨known, given, hgiven, hd⟩ }

section

variable (lawful : session.frontEnd.Lawful) (stems : a.Stems session O)

include lawful stems

theorem compiles_compile (context : FrameContext) (file source : String) :
  Compiles session O a file source (a.compile session context file source)
  := by
  have hgrows := lawful.grows a.names file source
  rcases hcompile : session.frontEnd a.names file source with ⟨compiled, names⟩
  rw [hcompile] at hgrows
  simp only [compile, hcompile]
  have hstems : Stems session O { a with names } :=
    stems.extend lawful le_rfl hgrows rfl rfl stems.thunks stems.objects
  cases compiled with
  | rejected error =>
    exact .rejected (by rw [hcompile]) (by rw [hcompile]) (.same rfl rfl rfl hstems)
  | broken message =>
    exact .broken (by rw [hcompile]) (by rw [hcompile]) (.same rfl rfl rfl hstems)
  | program code =>
    have hle : O ≤ ⟨O.thunks ++ [.code context session.base code], O.objects⟩ :=
      ⟨List.prefix_append _ _, List.prefix_refl _⟩
    have hadds : a.Adds session O ⟨O.thunks ++ [.code context session.base code], O.objects⟩
        { a with
          names
          thunks := a.thunks.push (.pending (.code context session.base code)) } := by
      refine ⟨⟨[.code context session.base code], rfl, by simp⟩, ⟨[], by simp, by simp⟩, rfl, ?_⟩
      refine stems.extend lawful hle hgrows ?_ ?_ ?_ ?_
      · rfl
      · rfl
      · simp [stems.thunks]
      · exact stems.objects
    have horigin : (O.thunks ++ [.code context session.base code])[a.thunks.size]?
        = some (.code context session.base code) := by
      simp [stems.thunks]
    exact .program (by rw [hcompile]) (by rw [hcompile]) hadds horigin

omit lawful in
/-- Asking for the text of an import gives the answer of the importer. -/
theorem importText_eq (directory path : String) (site : Location) :
  ∃ a', a.importText session.importer directory path site
      = ((match session.importer directory path with
        | .ok file => .ok file
        | .error e => .error (a'.failure (.importFailed e.message) site)), a') ∧
    a'.names = a.names ∧ a'.thunks = a.thunks ∧ a'.checks = a.checks ∧
    a'.fields = a.fields ∧ a'.Stems session O
  := by
  have hanswer := stems.answers.resolve_eq directory path
  have hanswers := stems.answers.resolve directory path
  have hcode := a.imports.code?_resolve session.importer directory path
  rcases hresolve : a.imports.resolve session.importer directory path with ⟨answer, imports⟩
  rw [hresolve] at hanswer hanswers hcode
  refine ⟨{ a with imports }, ?_, rfl, rfl, rfl, rfl, ?_⟩
  · simp only [importText, hresolve]
    rw [← hanswer]
    cases answer <;> rfl
  · exact { stems with
      answers := hanswers
      code := fun d p code h => stems.code d p code ((hcode d p).symm.trans h) }

/-- What an import comes to: the failure of the importer, or what compiling its text comes
to. -/
theorem imported_cases (directory : String) (path : Name) (site : Location) :
  match session.importer directory (a.names.lookup path) with
  | .error e => ∃ a', a.imported session directory path site
        = (.error (a'.failure (.importFailed e.message) site), a') ∧
      a.Adds session O O a' ∧ a'.names = a.names
  | .ok file => Compiles session O a file.foundAt file.content
      (a.imported session directory path site)
  := by
  rw [imported]
  cases hcode : a.imports.code? directory (a.names.lookup path) with
  | some code =>
    obtain ⟨file, hfile, holds⟩ := stems.code _ _ _ hcode
    rw [hfile]
    cases holds with
    | program compiled origin =>
      exact .program (by rw [compiled]) (by rw [compiled]) (.same rfl rfl rfl stems) origin
    | rejected compiled =>
      exact .rejected (by rw [compiled]) (by rw [compiled]) (.same rfl rfl rfl stems)
  | none =>
    obtain ⟨a₁, htext, hnames, hthunks, hchecks, hfields, hstems⟩ :=
      importText_eq stems directory (a.names.lookup path) site
    dsimp only
    rw [htext]
    cases himporter : session.importer directory (a.names.lookup path) with
    | error e => exact ⟨a₁, rfl, .same hthunks hchecks hfields hstems, hnames⟩
    | ok file =>
      dsimp only
      have hcompile := compiles_compile lawful hstems (.importing path) file.foundAt file.content
      rcases hx : a₁.compile session (.importing path) file.foundAt file.content with ⟨x, a₂⟩
      rw [hx] at hcompile
      cases x with
      | error failure =>
        exact hcompile.change lawful hnames hthunks hchecks hfields _ _ fun O' h _ => h
      | ok code =>
        apply hcompile.change lawful hnames hthunks hchecks hfields
        intro O' h holds
        exact h.setCode himporter (holds code rfl)

/-- What an external value comes to: itself, or what compiling its text comes to. -/
theorem given_cases (given : External) (kind : String) (name : Name) (context : FrameContext) :
  match given with
  | .text value => a.given session given kind name context = (.ok (.ready (.string value)), a)
  | .code source => Compiles session O a (externalFile kind (a.names.lookup name)) source
      (a.given session given kind name context)
  := by
  cases given with
  | text value => rfl
  | code source => exact compiles_compile lawful stems context _ source

/-- What an external variable comes to. -/
theorem external_cases {name : Name} {given : External} (known : a.names.Knows name)
    (hgiven : session.externals.reverse.lookup name = some given) :
  match given with
  | .text value => ∃ a', a.external session name given = (.ok (.ready (.string value)), a') ∧
      a.Adds session O O a' ∧ a'.names = a.names
  | .code source =>
      Compiles session O a (externalFile "extvar" (a.names.lookup name)) source
        (a.external session name given)
  := by
  rw [external]
  cases hold : a.externals[name]? with
  | some d =>
    obtain ⟨-, given', hgiven', hd⟩ := stems.external name d hold
    cases hgiven.symm.trans hgiven'
    cases hd with
    | text value => exact ⟨a, rfl, .same rfl rfl rfl stems, rfl⟩
    | code holds =>
      cases holds with
      | program compiled origin =>
        exact .program (by rw [compiled]) (by rw [compiled]) (.same rfl rfl rfl stems) origin
      | rejected compiled =>
        exact .rejected (by rw [compiled]) (by rw [compiled]) (.same rfl rfl rfl stems)
  | none =>
    have hcases := given_cases lawful stems given "extvar" name (.external name)
    cases given with
    | text value =>
      dsimp only at hcases ⊢
      rw [hcases]
      exact ⟨_, rfl, .same rfl rfl rfl (stems.insertExternal known hgiven (.text value)), rfl⟩
    | code source =>
      dsimp only at hcases ⊢
      have hgrows := Grows.given session a (.code source) "extvar" name (.external name)
      rcases hx : a.given session (.code source) "extvar" name (.external name) with ⟨x, a₁⟩
      rw [hx] at hcases hgrows
      cases x with
      | error failure =>
        exact hcases.change lawful rfl rfl rfl rfl _ _ fun O' h _ => h
      | ok d =>
        apply hcases.change lawful rfl rfl rfl rfl
        intro O' h holds
        have hle := hgrows.names lawful.grows
        apply h.insertExternal (known.mono hle) hgiven
        rw [known.lookup_eq hle]
        exact .code (holds d rfl)

end

end State

end Jsonnet
