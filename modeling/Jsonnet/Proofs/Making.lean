import Jsonnet.Proofs.ScopeSafety
import Jsonnet.Proofs.Standards

/-!
# What evaluation makes

An operation that is given proper data gives proper data, and leaves a proper state behind, as
long as the code that comes from outside meets the standard. So does every computation, since it
takes operations and asks for tasks with proper data only: what each task gives is taken as proper
here, and that it is follows by induction.
-/

namespace Jsonnet

/-! ### Operations -/

/-- Whether an operation is given proper data. Only frames overflow the stack. -/
def Operation.Takes (S : Standard) (session : Session) (made : List Object) : Operation → Prop
  | .literal scope fields asserts =>
    S.fields (fields.map Prod.fst) ∧ Proper S made (.scope scope) ∧
      (∀ field ∈ fields, field.2.member.IsProper S made) ∧
      ∀ member ∈ asserts, member.IsProper S made
  | .combine left right => left.MadeIn made ∧ right.MadeIn made
  | .share suspensions => ∀ s ∈ suspensions, Proper S made (.suspension s)
  | .bindLocals code env binds =>
    Proper S made (.env env) ∧ ∀ bind ∈ binds, S.code (code.sibling bind.body)
  | .external name given => (name, given) ∈ session.externals
  | .argument name given => (name, given) ∈ session.arguments
  | .raise cause _ => (Failure.runtime cause none).isOverflow = false
  | .fail failure => S.failure failure
  | _ => True

/-- Whether the result of an operation is proper. -/
def Operation.Yields (S : Standard) (made : List Object) :
    (operation : Operation) → operation.Result → Prop
  | .literal .., o | .combine .., o => o.MadeIn made
  | .share _, ds => ∀ d ∈ ds, d.Memoised ∧ Proper S made (.deferred d)
  | .bindLocals .., env => Proper S made (.env env)
  | .slot _, d | .imported .., d | .external .., d | .argument .., d => Proper S made (.deferred d)
  | _, _ => True

/-- An outcome with a proper state, and a proper result if there is one. -/
def Outcome.IsProper {α : Type} (S : Standard) (session : Session) (start : Interner)
    (made : List Object) (R : List Object → α → Prop) (x : Outcome α) : Prop :=
  ∃ more, made <+: more ∧ x.2.IsProper S session start more ∧ ∀ r, x.1 = .ok r → R more r

/-- The results that are not data, of which nothing is said. -/
def Anything {α : Type} (_ : List Object) (_ : α) : Prop := True

/-- The proper values. -/
def ProperValue (S : Standard) (made : List Object) (v : Value) : Prop := Proper S made (.value v)

/-- The proper deferred values. -/
def ProperDeferred (S : Standard) (made : List Object) (d : Deferred) : Prop :=
  Proper S made (.deferred d)

/-- The lists of proper elements of arrays. -/
def ProperElements (S : Standard) (made : List Object) (ds : List Deferred) : Prop :=
  ∀ d ∈ ds, d.Memoised ∧ Proper S made (.deferred d)

/-- Whether all code from outside that has been compiled by the time the import cache is as given
meets a standard. A front end keeps the names that there were at the start. -/
structure Session.Supplies (session : Session) (S : Standard) (start : Interner)
    (imports : ImportCache Deferred) : Prop where
  keeps : ∀ names file source, start ≤ names → start ≤ (session.frontEnd names file source).2
  source : ∀ {code}, session.Source start [] imports code → S.code code

/-- Nothing is asked of what comes from outside if any code meets the standard. -/
theorem Standard.Lax.supplies {S : Standard} (lax : S.Lax) (session : Session)
    (imports : ImportCache Deferred) :
  session.Supplies S .onlyEmpty imports
  where
  keeps _ _ _ _ := Interner.onlyEmpty_le _
  source _ := lax.code _

section

variable {S : Standard} {session : Session} {start : Interner} {imports : ImportCache Deferred}
  {made : List Object} {a : State}

/-- New thunks are proper elements. -/
theorem share_elements (S : Standard) (made : List Object) (a : State)
    (suspensions : List Suspension) :
  ProperElements S made (a.share suspensions).1
  := by
  intro d hd
  obtain ⟨i, -, rfl⟩ := List.mem_map.mp hd
  exact ⟨trivial, .shared _⟩

theorem State.IsProper.share (h : a.IsProper S session start made) (suspensions : List Suspension)
    (proper : ∀ s ∈ suspensions, Proper S made (.suspension s)) :
  (a.share suspensions).2.IsProper S session start made
  := by
  apply h.appendThunks
  intro cell hcell
  obtain ⟨s, hs, rfl⟩ := List.mem_map.mp hcell
  exact proper s hs

/-- What stands in the slots of a table after some of them were filled. -/
theorem Slots.getElem?_fillAll {P : Deferred → Prop} {slots : Slots}
    {bindings : List (SlotId × Deferred)}
    (hslots : ∀ {i : Nat} {d : Deferred}, slots.entries[i]? = some d → P d)
    (hbindings : ∀ b ∈ bindings, P b.2) {i : Nat} {d : Deferred}
    (hd : (slots.fillAll bindings).entries[i]? = some d) :
  P d
  := by
  induction bindings generalizing slots with
  | nil => exact hslots hd
  | cons binding rest ih =>
    refine ih ?_ (fun b hb => hbindings b (List.mem_cons_of_mem _ hb)) hd
    intro j e he
    change (slots.entries.setIfInBounds _ _)[j]? = some e at he
    rw [Array.getElem?_setIfInBounds] at he
    split at he
    case isFalse => exact hslots he
    case isTrue =>
      split at he
      case isTrue =>
        cases he
        exact hbindings binding List.mem_cons_self
      case isFalse => cases he

theorem State.IsProper.bindLocals (h : a.IsProper S session start made) {code : Code} {env : Env}
    (henv : Proper S made (.env env)) {binds : List Bind}
    (hbinds : ∀ bind ∈ binds, S.code (code.sibling bind.body)) :
  (a.bindLocals code env binds).2.IsProper S session start made ∧
    Proper S made (.env (a.bindLocals code env binds).1)
  := by
  have inner : Proper S made (.env (a.bindLocals code env binds).1) := by
    apply henv.withScope
    cases henv with
    | env scope _ => exact scope.bindSlots _
  have cells := h.share (binds.map fun bind => .code (.thunk bind.name)
    (a.bindLocals code env binds).1 (code.sibling bind.body)) (by
      intro s hs
      obtain ⟨bind, hbind, rfl⟩ := List.mem_map.mp hs
      exact .code inner (hbinds bind hbind))
  refine ⟨{ cells with slot := ?_ }, inner⟩
  intro i d hd
  refine Slots.getElem?_fillAll (P := ProperDeferred S made) ?_ ?_ hd
  · intro j e he
    change (a.slots.entries ++ List.replicate binds.length Slots.unfilled)[j]? = some e at he
    rw [← Array.getElem?_toList, Array.toList_appendList, List.getElem?_append] at he
    split at he
    · exact h.slot (by rw [← Array.getElem?_toList]; exact he)
    · rw [List.eq_of_mem_replicate (List.mem_of_getElem? he)]
      exact .failed (S.reported rfl)
  · rintro ⟨number, e⟩ he
    exact (share_elements S made a _ e (List.of_mem_zip he).2).2

/-! ### Code from outside -/

theorem State.IsProper.importText (h : a.IsProper S session start made) (importer : Importer)
    (directory path : String) (site : Location) :
  (a.importText importer directory path site).2.IsProper S session start made
  := by
  have hcode := fun d p => a.imports.code?_resolve importer directory path d p
  rcases hresolve : a.imports.resolve importer directory path with ⟨answer, imports⟩
  rw [hresolve] at hcode
  simp only [State.importText, hresolve]
  have proper : IsProper S session start made { a with imports } :=
    { h with imported := fun {d p e} he => h.imported ((hcode d p).symm.trans he) }
  cases answer <;> exact proper

/-- Compiling a text whose program meets the standard. -/
theorem State.IsProper.compile (h : a.IsProper S session start made)
    (supplies : session.Supplies S start imports) (context : FrameContext) {file source : String}
    (hcode : ∀ code, (session.frontEnd a.names file source).1 = .program code → S.code code) :
  Outcome.IsProper S session start made (ProperDeferred S)
    (a.compile session context file source)
  := by
  have later := supplies.keeps a.names file source h.names
  rcases hcompile : session.frontEnd a.names file source with ⟨compiled, names⟩
  rw [hcompile] at later hcode
  refine ⟨made, List.prefix_refl _, ?_⟩
  simp only [State.compile, hcompile]
  have proper : IsProper S session start made { a with names } := { h with names := later }
  cases compiled with
  | program code =>
    have hpush := proper.appendThunks [.pending (.code context session.base code)] (by
      intro cell hcell
      cases List.mem_singleton.mp hcell
      exact Proper.code (base_proper h.library) (hcode code rfl))
    simp only [Array.appendList_cons, Array.appendList_nil] at hpush
    refine ⟨hpush, ?_⟩
    rintro r ⟨⟩
    exact .shared _
  | rejected error =>
    refine ⟨proper, ?_⟩
    rintro r ⟨⟩
    exact .failed (S.reported rfl)
  | broken message => exact ⟨proper, by rintro r ⟨⟩⟩

/-- Keeping the code of an import. -/
theorem State.IsProper.setCode (h : a.IsProper S session start made) (directory path : String)
    {d : Deferred} (hd : ProperDeferred S made d) :
  IsProper S session start made { a with imports := a.imports.setCode directory path d }
  := by
  refine { h with imported := ?_ }
  intro directory' path' d' hd'
  obtain hd' | ⟨-, -, rfl⟩ := ImportCache.code?_setCode hd'
  · exact h.imported hd'
  · exact hd

/-- The program of a text that is imported is a source, since the import is kept. -/
theorem State.source_of_imported {directory : String} {path : Name} {site : Location}
    (missing : a.imports.code? directory (a.names.lookup path) = none) {file : ImportedFile}
    {b : State}
    (answer : a.importText session.importer directory (a.names.lookup path) site = (.ok file, b))
    (hnames : start ≤ b.names) {code : Code}
    (program : (session.frontEnd b.names file.foundAt file.content).1 = .program code)
    (within : (a.imported session directory path site).2.imports.Extends imports) :
  session.Source start [] imports code
  := by
  obtain ⟨entry, hentry, hanswer, hcode⟩ :=
    a.imports.entry_setCode_resolve session.importer directory (a.names.lookup path)
      (Deferred.shared ⟨b.thunks.size⟩)
  have himports : b.imports
      = (a.imports.resolve session.importer directory (a.names.lookup path)).2 ∧
      (a.imports.resolve session.importer directory (a.names.lookup path)).1 = .ok file := by
    rw [State.importText] at answer
    dsimp only at answer
    split at answer
    case h_1 heq =>
      cases answer
      exact ⟨rfl, heq⟩
    case h_2 => cases answer
  have hcompile : ∃ c, b.compile session (.importing path) file.foundAt file.content
      = (.ok (.shared ⟨b.thunks.size⟩), c) ∧ c.imports = b.imports := by
    rcases hfrontEnd : session.frontEnd b.names file.foundAt file.content with ⟨compiled, names⟩
    rw [hfrontEnd] at program
    cases program
    simp only [State.compile, hfrontEnd]
    exact ⟨_, rfl, rfl⟩
  obtain ⟨c, hc, hsame⟩ := hcompile
  rw [State.imported] at within
  simp only [missing, answer, hc] at within
  have kept : (c.imports.setCode directory (a.names.lookup path)
      (.shared ⟨b.thunks.size⟩)).entries[(directory, a.names.lookup path)]? = some entry := by
    rw [hsame, himports.1]
    exact hentry
  obtain ⟨entry', hentry', hanswer', hcode'⟩ := within _ _ kept
  refine .imported hentry' ?_ (hanswer'.trans (hanswer.trans himports.2)) hnames program
  rw [hcode' _ hcode]
  rfl

theorem State.IsProper.importedCode (h : a.IsProper S session start made)
    (supplies : session.Supplies S start imports) (directory : String) (path : Name)
    (site : Location)
    (within : (a.imported session directory path site).2.imports.Extends imports) :
  Outcome.IsProper S session start made (ProperDeferred S)
    (a.imported session directory path site)
  := by
  have source : a.imports.code? directory (a.names.lookup path) = none → ∀ file b,
      a.importText session.importer directory (a.names.lookup path) site = (.ok file, b) →
      start ≤ b.names → ∀ code, (session.frontEnd b.names file.foundAt file.content).1
        = .program code → S.code code :=
    fun missing file b answer hnames code program =>
      supplies.source (State.source_of_imported missing answer hnames program within)
  rw [State.imported]
  split
  case h_1 code hcode =>
    refine ⟨made, List.prefix_refl _, h, ?_⟩
    rintro r ⟨⟩
    exact h.imported hcode
  case h_2 missing =>
    have h₁ := h.importText session.importer directory (a.names.lookup path) site
    rcases htext : a.importText session.importer directory (a.names.lookup path) site
      with ⟨outcome, b⟩
    rw [htext] at h₁
    cases outcome with
    | error failure => exact ⟨made, List.prefix_refl _, h₁, by rintro r ⟨⟩⟩
    | ok file =>
      obtain ⟨more, hle, h₂, hcode⟩ := h₁.compile supplies (.importing path)
        (source missing file b htext h₁.names)
      simp only
      rcases hcompile : b.compile session (.importing path) file.foundAt file.content
        with ⟨outcome, c⟩
      rw [hcompile] at h₂ hcode
      cases outcome with
      | error failure => exact ⟨more, hle, h₂, by rintro r ⟨⟩⟩
      | ok code =>
        refine ⟨more, hle, h₂.setCode _ _ (hcode code rfl), ?_⟩
        rintro r ⟨⟩
        exact hcode code rfl

theorem State.IsProper.given (h : a.IsProper S session start made)
    (supplies : session.Supplies S start imports) {external : External} {kind : String}
    {name : Name} (context : FrameContext)
    (hcode : ∀ source code, external = .code source →
      (session.frontEnd a.names (externalFile kind (a.names.lookup name)) source).1
        = .program code → S.code code) :
  Outcome.IsProper S session start made (ProperDeferred S)
    (a.given session external kind name context)
  := by
  cases external with
  | text value =>
    refine ⟨made, List.prefix_refl _, h, ?_⟩
    rintro r ⟨⟩
    exact .ready (.string value)
  | code source => exact h.compile supplies context fun code => hcode source code rfl

theorem State.IsProper.externalValue (h : a.IsProper S session start made)
    (supplies : session.Supplies S start imports) {name : Name} {given : External}
    (mem : (name, given) ∈ session.externals) :
  Outcome.IsProper S session start made (ProperDeferred S) (a.external session name given)
  := by
  rw [State.external]
  split
  case h_1 value hvalue =>
    refine ⟨made, List.prefix_refl _, h, ?_⟩
    rintro r ⟨⟩
    exact h.external hvalue
  case h_2 =>
    have program : ∀ source code, given = .code source →
        (session.frontEnd a.names (externalFile "extvar" (a.names.lookup name)) source).1
          = .program code → S.code code := by
      rintro source code rfl program
      exact supplies.source (.external mem h.names program)
    obtain ⟨more, hle, h₁, hvalue⟩ := h.given supplies (.external name) program
    rcases hgiven : a.given session given "extvar" name (.external name) with ⟨outcome, b⟩
    rw [hgiven] at h₁ hvalue
    cases outcome with
    | error failure => exact ⟨more, hle, h₁, by rintro r ⟨⟩⟩
    | ok value =>
      refine ⟨more, hle, { h₁ with external := ?_ }, ?_⟩
      · intro other d hd
        rw [Std.HashMap.getElem?_insert] at hd
        split at hd
        case isFalse => exact h₁.external hd
        case isTrue =>
          cases hd
          exact hvalue value rfl
      · rintro r ⟨⟩
        exact hvalue value rfl

/-! ### All operations -/

/-- An operation on a proper state that is given proper data comes to a proper outcome. -/
theorem Operation.proper {operation : Operation} (h : a.IsProper S session start made)
    (takes : operation.Takes S session made) (supplies : session.Supplies S start imports)
    (within : (operation.apply session a).2.imports.Extends imports) :
  Outcome.IsProper S session start made (fun made => operation.Yields S made)
    (operation.apply session a)
  := by
  have stays : ∀ {α : Type} {R : List Object → α → Prop} {x : Except Failure α} {b : State},
      b.IsProper S session start made → (∀ r, x = .ok r → R made r) →
      Outcome.IsProper S session start made R (x, b) :=
    fun hb hR => ⟨made, List.prefix_refl _, hb, hR⟩
  cases operation with
  | count step => exact stays (h.congr le_rfl rfl rfl rfl rfl rfl rfl) fun _ _ => trivial
  | text name => exact stays h fun _ _ => trivial
  | intern s =>
    rw [apply]
    split
    case h_1 name names hintern =>
      have hle := (Interner.tryIntern_ok hintern).1
      exact stays (h.congr hle rfl rfl rfl rfl rfl rfl) fun _ _ => trivial
    case h_2 => exact stays h fun _ _ => trivial
  | internAll strings =>
    have hle := a.names.le_internAll strings
    exact stays (h.congr hle rfl rfl rfl rfl rfl rfl) fun _ _ => trivial
  | sort fields => exact stays h fun _ _ => trivial
  | literal scope fields asserts =>
    obtain ⟨hnames, hscope, hfields, hasserts⟩ := takes
    obtain ⟨more, hle, hb, ho⟩ := h.newObject (fun id => .leaf ⟨id, scope, fields, asserts⟩)
      (fun _ => rfl) fun _ => .leaf ⟨hnames, hscope, hfields, hasserts⟩
    refine ⟨more, hle, hb, ?_⟩
    rintro r ⟨⟩
    exact ho
  | combine left right =>
    obtain ⟨hleft, hright⟩ := takes
    obtain ⟨more, hle, hb, ho⟩ := h.newObject (fun id => .combine id left right)
      (fun _ => rfl) fun id => .combine id (h.object hleft) (h.object hright)
    refine ⟨more, hle, hb, ?_⟩
    rintro r ⟨⟩
    exact ho
  | share suspensions =>
    apply stays (h.share suspensions takes)
    rintro r ⟨⟩
    exact share_elements S made a suspensions
  | bindLocals code env binds =>
    obtain ⟨hb, henv⟩ := h.bindLocals takes.1 takes.2
    apply stays hb
    rintro r ⟨⟩
    exact henv
  | slot id =>
    rw [apply]
    split
    case h_1 d hd =>
      apply stays h
      rintro r ⟨⟩
      exact h.slot hd
    case h_2 => exact stays h (by rintro r ⟨⟩)
  | importText directory path site =>
    exact stays (h.importText session.importer directory path site) fun _ _ => trivial
  | imported directory path site => exact h.importedCode supplies directory path site within
  | external name given => exact h.externalValue supplies takes
  | argument name given =>
    apply h.given supplies
    rintro source code rfl program
    exact supplies.source (.argument takes h.names program)
  | raise cause site => exact stays h (by rintro r ⟨⟩)
  | fail failure => exact stays h (by rintro r ⟨⟩)

end

end Jsonnet
