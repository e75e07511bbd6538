import Jsonnet.Eval.Run
import Jsonnet.Proofs.Recoding

/-!
# Runs with exchanged codes

Two runs of which one has other codes than the other, but at the same locations, go on in
lockstep: they take operations and ask for tasks that differ in their codes only, get back
results that differ in their codes only, and their states have the same numbers for thunks,
slots and objects, the same names, the same frames and the same checks.
-/

namespace Jsonnet

/-! ### Sessions and states -/

/-- What comes of compiling a text, with the code exchanged. -/
def Compiled.recode (ρ : Recoding) : Compiled → Compiled
  | .program code => .program (ρ code)
  | .rejected error => .rejected error
  | .broken message => .broken message

/-- A front end whose codes are exchanged. -/
def FrontEnd.recode (ρ : Recoding) (frontEnd : FrontEnd) : FrontEnd := fun names file source =>
  ((frontEnd names file source).1.recode ρ, (frontEnd names file source).2)

/-- A session with the codes of its front end exchanged. -/
def Session.recode (ρ : Recoding) (session : Session) : Session := { session with
  frontEnd := session.frontEnd.recode ρ
  library := session.library.recode ρ }

/-- What is known about an import, with the code exchanged. -/
def ImportEntry.recode (ρ : Recoding) (entry : ImportEntry Deferred) : ImportEntry Deferred :=
  { entry with code := entry.code.map (Deferred.recode ρ) }

/-- States that differ in their codes only. -/
structure State.Recodes (ρ : Recoding) (a b : State) : Prop where
  names : b.names = a.names
  stack : b.stack = a.stack
  thunks : b.thunks = a.thunks.map (Cell.recode ρ)
  slots : b.slots.entries = a.slots.entries.map (Deferred.recode ρ)
  checks : b.checks = a.checks
  fieldOf : ∀ key : FieldKey, b.fields[key]? = a.fields[key]?.map (Value.recode ρ)
  importOf : ∀ key : String × String,
    b.imports.entries[key]? = a.imports.entries[key]?.map (ImportEntry.recode ρ)
  externalOf : ∀ name : Name, b.externals[name]? = a.externals[name]?.map (Deferred.recode ρ)
  counters : b.counters = a.counters

/-- Outcomes that differ in their codes only; `g` exchanges the codes of a result. -/
structure Outcome.Recodes (ρ : Recoding) {α β : Type} (g : α → β) (x : Outcome α)
    (y : Outcome β) : Prop where
  outcome : y.1 = x.1.map g
  state : x.2.Recodes ρ y.2

variable {ρ : Recoding} {session : Session} {a b : State}

/-- The environment of a file with the library exchanged. -/
theorem Session.base_recode (ρ : Recoding) (session : Session) :
  (session.recode ρ).base = session.base.recode ρ
  := rfl

/-- Outcomes that differ in their codes only are two results or the same failure. -/
theorem Outcome.Recodes.cases {α β : Type} {g : α → β} {x : Outcome α} {y : Outcome β}
    (h : Outcome.Recodes ρ g x y) :
  (∃ r a b, x = (.ok r, a) ∧ y = (.ok (g r), b) ∧ a.Recodes ρ b) ∨
    ∃ failure a b, x = (.error failure, a) ∧ y = (.error failure, b) ∧ a.Recodes ρ b
  := by
  obtain ⟨outcome, a⟩ := x
  obtain ⟨outcome', b⟩ := y
  obtain ⟨houtcome, hstate⟩ := h
  dsimp only at houtcome
  subst houtcome
  cases outcome with
  | ok r => exact .inl ⟨r, a, b, rfl, rfl, hstate⟩
  | error failure => exact .inr ⟨failure, a, b, rfl, rfl, hstate⟩

namespace State.Recodes

theorem failure (h : a.Recodes ρ b) (cause : Cause) (site : Location) :
  b.failure cause site = a.failure cause site
  := by
  simp only [State.failure, h.stack, h.names]

/-! ### Making objects, thunks and slots -/

theorem newObject (h : a.Recodes ρ b) {make make' : ObjectId → Object}
    (hmake : ∀ id, make' id = (make id).recode ρ) :
  (b.newObject make').1 = (a.newObject make).1.recode ρ ∧
    (a.newObject make).2.Recodes ρ (b.newObject make').2
  := by
  simp only [State.newObject, h.checks, hmake]
  exact ⟨trivial, { h with checks := rfl }⟩

theorem share (h : a.Recodes ρ b) (suspensions : List Suspension) :
  (b.share (suspensions.map (Suspension.recode ρ))).1
      = (a.share suspensions).1.map (Deferred.recode ρ) ∧
    (a.share suspensions).2.Recodes ρ (b.share (suspensions.map (Suspension.recode ρ))).2
  := by
  simp only [State.share, h.thunks, Array.size_map, List.length_map, List.map_map]
  refine ⟨rfl, { h with thunks := ?_ }⟩
  apply Array.toList_inj.mp
  rw [Array.toList_appendList, Array.toList_map, Array.toList_map, Array.toList_appendList,
    List.map_append, List.map_map]
  rfl

/-- Filling slots with deferred values that differ in their codes. -/
theorem fillAll (bindings : List (SlotId × Deferred)) {slots slots' : Slots}
    (h : slots'.entries = slots.entries.map (Deferred.recode ρ)) :
  (slots'.fillAll (bindings.map fun entry => (entry.1, entry.2.recode ρ))).entries
    = (slots.fillAll bindings).entries.map (Deferred.recode ρ)
  := by
  induction bindings generalizing slots slots' with
  | nil => exact h
  | cons binding rest ih =>
    apply ih
    dsimp only [Slots.fill]
    rw [h, Array.map_setIfInBounds]

theorem reserve (h : a.Recodes ρ b) (count : Nat) :
  (b.slots.reserve count).1 = (a.slots.reserve count).1 ∧
    (b.slots.reserve count).2.entries
      = (a.slots.reserve count).2.entries.map (Deferred.recode ρ)
  := by
  simp only [Slots.reserve, h.slots, Array.size_map]
  refine ⟨trivial, Array.toList_inj.mp ?_⟩
  rw [Array.toList_appendList, Array.toList_map, Array.toList_map, Array.toList_appendList,
    List.map_append, List.map_replicate]
  rfl

theorem bindLocals (h : a.Recodes ρ b) {code : Code} (env : Env) {binds : List Bind}
    (siblings : ∀ bind ∈ binds, ρ (code.sibling bind.body) = (ρ code).sibling bind.body) :
  (b.bindLocals (ρ code) (env.recode ρ) binds).1 = (a.bindLocals code env binds).1.recode ρ ∧
    (a.bindLocals code env binds).2.Recodes ρ (b.bindLocals (ρ code) (env.recode ρ) binds).2
  := by
  obtain ⟨hfirst, hslots⟩ := h.reserve binds.length
  simp only [State.bindLocals, hfirst, Env.scope_recode, ← Scope.recode_bindSlots,
    ← Env.recode_withScope]
  generalize a.slots.reserve binds.length = reserved at hslots ⊢
  generalize b.slots.reserve binds.length = reserved' at hslots ⊢
  generalize env.withScope _ = inner
  have hsuspensions : (binds.map fun bind =>
        Suspension.code (.thunk bind.name) (inner.recode ρ) ((ρ code).sibling bind.body))
      = (binds.map fun bind => Suspension.code (.thunk bind.name) inner
        (code.sibling bind.body)).map (Suspension.recode ρ) := by
    rw [List.map_map]
    apply List.map_congr_left
    intro bind hbind
    rw [← siblings bind hbind]
    rfl
  have states : State.Recodes ρ { a with slots := reserved.2 }
      { b with slots := reserved'.2 } := { h with slots := hslots }
  obtain ⟨hthunks, hstate⟩ := states.share (binds.map fun bind =>
    Suspension.code (.thunk bind.name) inner (code.sibling bind.body))
  rw [hsuspensions, hthunks, List.zip_map_right]
  exact ⟨trivial, { hstate with slots := fillAll _ hstate.slots }⟩

/-! ### Code from outside -/

theorem importText (h : a.Recodes ρ b) (importer : Importer) (directory path : String)
    (site : Location) :
  Outcome.Recodes ρ id (a.importText importer directory path site)
    (b.importText importer directory path site)
  := by
  have resolved : (b.imports.resolve importer directory path).1
        = (a.imports.resolve importer directory path).1 ∧
      State.Recodes ρ { a with imports := (a.imports.resolve importer directory path).2 }
        { b with imports := (b.imports.resolve importer directory path).2 } := by
    simp only [ImportCache.resolve, h.importOf]
    cases a.imports.entries[(directory, path)]? with
    | some entry => exact ⟨rfl, h⟩
    | none =>
      refine ⟨rfl, { h with importOf := ?_ }⟩
      intro key
      simp only [Option.map_none, Std.HashMap.getElem?_insert]
      split
      · rfl
      · exact h.importOf key
  obtain ⟨hanswer, hstate⟩ := resolved
  simp only [State.importText, hanswer]
  cases (a.imports.resolve importer directory path).1 with
  | ok file => exact ⟨rfl, hstate⟩
  | error e =>
    refine ⟨?_, hstate⟩
    dsimp only
    rw [hstate.failure]
    rfl

theorem compile (session : Session) (h : a.Recodes ρ b) (context : FrameContext) (file source : String) :
  Outcome.Recodes ρ (Deferred.recode ρ) (a.compile session context file source)
    (b.compile (session.recode ρ) context file source)
  := by
  rcases hcompile : session.frontEnd a.names file source with ⟨compiled, names⟩
  have hcompile' : (session.recode ρ).frontEnd b.names file source
      = (compiled.recode ρ, names) := by
    simp only [Session.recode, FrontEnd.recode, h.names, hcompile]
  simp only [State.compile, hcompile, hcompile']
  cases compiled with
  | program code =>
    refine ⟨?_, { h with names := rfl, thunks := ?_ }⟩
    · dsimp only [Compiled.recode]
      rw [h.thunks, Array.size_map]
      rfl
    · dsimp only [Compiled.recode]
      rw [h.thunks, Array.map_push]
      rfl
  | rejected error => exact ⟨rfl, { h with names := rfl }⟩
  | broken message => exact ⟨rfl, { h with names := rfl }⟩

/-- Keeping the code of an import. -/
theorem setCode (h : a.Recodes ρ b) (directory path : String) (code : Deferred) :
  State.Recodes ρ { a with imports := a.imports.setCode directory path code }
    { b with imports := b.imports.setCode directory path (code.recode ρ) }
  := by
  refine { h with importOf := ?_ }
  intro key
  simp only [ImportCache.setCode, h.importOf (directory, path)]
  cases a.imports.entries[(directory, path)]? with
  | none => exact h.importOf key
  | some entry =>
    simp only [Option.map_some, Std.HashMap.getElem?_insert]
    split
    · rfl
    · exact h.importOf key

theorem imported (session : Session) (h : a.Recodes ρ b) (directory : String) (path : Name) (site : Location) :
  Outcome.Recodes ρ (Deferred.recode ρ) (a.imported session directory path site)
    (b.imported (session.recode ρ) directory path site)
  := by
  have hcode : b.imports.code? directory (a.names.lookup path)
      = (a.imports.code? directory (a.names.lookup path)).map (Deferred.recode ρ) := by
    rw [ImportCache.code?, h.importOf, ImportCache.code?, Option.bind_map, Option.map_bind]
    rfl
  simp only [State.imported, h.names, hcode]
  cases a.imports.code? directory (a.names.lookup path) with
  | some code => exact ⟨rfl, h⟩
  | none =>
    dsimp only [Option.map_none, Session.recode]
    obtain ⟨text, a₁, b₁, ha, hb, h₁⟩ | ⟨failure, a₁, b₁, ha, hb, h₁⟩ :=
      (h.importText session.importer directory (a.names.lookup path) site).cases
    · rw [ha, hb]
      dsimp only [id]
      obtain ⟨code, a₂, b₂, ha, hb, h₂⟩ | ⟨failure, a₂, b₂, ha, hb, h₂⟩ :=
        (h₁.compile session (.importing path) text.foundAt text.content).cases
      · dsimp only [Session.recode] at hb
        rw [ha, hb]
        exact ⟨rfl, h₂.setCode directory (a.names.lookup path) code⟩
      · dsimp only [Session.recode] at hb
        rw [ha, hb]
        exact ⟨rfl, h₂⟩
    · rw [ha, hb]
      exact ⟨rfl, h₁⟩

theorem given (session : Session) (h : a.Recodes ρ b) (external : External) (kind : String) (name : Name)
    (context : FrameContext) :
  Outcome.Recodes ρ (Deferred.recode ρ) (a.given session external kind name context)
    (b.given (session.recode ρ) external kind name context)
  := by
  cases external with
  | text value => exact ⟨rfl, h⟩
  | code source =>
    simp only [State.given, h.names]
    apply h.compile

theorem externalValue (session : Session) (h : a.Recodes ρ b) (name : Name) (external : External) :
  Outcome.Recodes ρ (Deferred.recode ρ) (a.external session name external)
    (b.external (session.recode ρ) name external)
  := by
  simp only [State.external, h.externalOf]
  cases a.externals[name]? with
  | some value => exact ⟨rfl, h⟩
  | none =>
    obtain ⟨value, a₁, b₁, ha, hb, h₁⟩ | ⟨failure, a₁, b₁, ha, hb, h₁⟩ :=
      (h.given session external "extvar" name (.external name)).cases
    · simp only [Option.map_none, ha, hb]
      refine ⟨rfl, { h₁ with externalOf := ?_ }⟩
      intro other
      simp only [Std.HashMap.getElem?_insert]
      split
      · rfl
      · exact h₁.externalOf other
    · simp only [Option.map_none, ha, hb]
      exact ⟨rfl, h₁⟩

end State.Recodes

/-! ### Operations -/

/-- Operations that differ in their codes only, and what exchanges the codes of their results. -/
inductive Operation.Recodes (ρ : Recoding) : (op op' : Operation) →
    (op.Result → op'.Result) → Prop where
  | count (step : Step) : Recodes ρ (.count step) (.count step) id
  | text (name : Name) : Recodes ρ (.text name) (.text name) id
  | intern (s : String) : Recodes ρ (.intern s) (.intern s) id
  | internAll (strings : List String) : Recodes ρ (.internAll strings) (.internAll strings) id
  | sort (fields : List Name) : Recodes ρ (.sort fields) (.sort fields) id
  | literal (scope : Scope) (fields : List (Name × Field)) (asserts : List Member) :
    Recodes ρ (.literal scope fields asserts)
      (.literal (scope.recode ρ) (recodeFields ρ fields) (recodeMembers ρ asserts))
      (Object.recode ρ)
  | combine (left right : Object) :
    Recodes ρ (.combine left right) (.combine (left.recode ρ) (right.recode ρ)) (Object.recode ρ)
  | share (suspensions : List Suspension) :
    Recodes ρ (.share suspensions) (.share (suspensions.map (Suspension.recode ρ)))
      (List.map (Deferred.recode ρ))
  | bindLocals {code : Code} (env : Env) {binds : List Bind}
      (siblings : ∀ bind ∈ binds, ρ (code.sibling bind.body) = (ρ code).sibling bind.body) :
    Recodes ρ (.bindLocals code env binds) (.bindLocals (ρ code) (env.recode ρ) binds)
      (Env.recode ρ)
  | slot (slot : SlotId) : Recodes ρ (.slot slot) (.slot slot) (Deferred.recode ρ)
  | importText (directory path : String) (site : Location) :
    Recodes ρ (.importText directory path site) (.importText directory path site) id
  | imported (directory : String) (path : Name) (site : Location) :
    Recodes ρ (.imported directory path site) (.imported directory path site) (Deferred.recode ρ)
  | external (name : Name) (given : External) :
    Recodes ρ (.external name given) (.external name given) (Deferred.recode ρ)
  | argument (name : Name) (given : External) :
    Recodes ρ (.argument name given) (.argument name given) (Deferred.recode ρ)
  | raise (cause : Cause) (site : Location) : Recodes ρ (.raise cause site) (.raise cause site) id
  | fail (failure : Failure) : Recodes ρ (.fail failure) (.fail failure) id

/-- Operations that differ in their codes only, on states that do so, come to outcomes that do
so. -/
theorem Operation.Recodes.apply (session : Session) {op op' : Operation} {g : op.Result → op'.Result}
    (h : op.Recodes ρ op' g) (states : a.Recodes ρ b) :
  Outcome.Recodes ρ g (op.apply session a) (op'.apply (session.recode ρ) b)
  := by
  cases h with
  | count step =>
    refine ⟨rfl, { states with counters := ?_ }⟩
    dsimp only [Operation.apply]
    rw [states.counters]
  | text name =>
    refine ⟨?_, states⟩
    simp only [Operation.apply, states.names]
    rfl
  | intern s =>
    simp only [Operation.apply, states.names]
    cases a.names.tryIntern s with
    | ok interned => exact ⟨rfl, { states with names := rfl }⟩
    | error e => exact ⟨rfl, states⟩
  | internAll strings =>
    simp only [Operation.apply, states.names]
    exact ⟨rfl, { states with names := rfl }⟩
  | sort fields =>
    refine ⟨?_, states⟩
    simp only [Operation.apply, states.names]
    rfl
  | literal scope fields asserts =>
    have hmake : ∀ id, Object.leaf ⟨id, scope.recode ρ, recodeFields ρ fields,
        recodeMembers ρ asserts⟩ = (Object.leaf ⟨id, scope, fields, asserts⟩).recode ρ :=
      fun _ => rfl
    obtain ⟨hobject, hstate⟩ := states.newObject hmake
    exact ⟨congrArg Except.ok hobject, hstate⟩
  | combine left right =>
    obtain ⟨hobject, hstate⟩ := states.newObject
      (fun id => (Object.recode_combine ρ id left right).symm)
    exact ⟨congrArg Except.ok hobject, hstate⟩
  | share suspensions =>
    obtain ⟨hvalues, hstate⟩ := states.share suspensions
    exact ⟨congrArg Except.ok hvalues, hstate⟩
  | bindLocals env siblings =>
    obtain ⟨hinner, hstate⟩ := states.bindLocals env siblings
    exact ⟨congrArg Except.ok hinner, hstate⟩
  | slot slot =>
    simp only [Operation.apply, Slots.get?, states.slots, Array.getElem?_map]
    cases a.slots.entries[slot.index]? with
    | some deferred => exact ⟨rfl, states⟩
    | none => exact ⟨rfl, states⟩
  | importText directory path site => exact states.importText session.importer directory path site
  | imported directory path site => exact states.imported session directory path site
  | external name given => exact states.externalValue session name given
  | argument name given => exact states.given session given _ name _
  | raise cause site =>
    refine ⟨?_, states⟩
    simp only [Operation.apply, states.failure]
    rfl
  | fail failure => exact ⟨rfl, states⟩

/-! ### Tasks -/

/-- Tasks that differ in their codes only, and what exchanges the codes of their results. -/
inductive Task.Recodes (ρ : Recoding) : (task task' : Task) →
    (task.Result → task'.Result) → Prop where
  | evaluate (code : Code) (env : Env) :
    Recodes ρ (.evaluate code env) (.evaluate (ρ code) (env.recode ρ)) (Value.recode ρ)
  | force (thunk : ThunkId) : Recodes ρ (.force thunk) (.force thunk) (Value.recode ρ)
  | call (f : Function) (arguments : List Deferred) (site : Location) :
    Recodes ρ (.call f arguments site)
      (.call (f.recode ρ) (arguments.map (Deferred.recode ρ)) site) (Value.recode ρ)
  | builtin (b : Builtin) (arguments : List Deferred) :
    Recodes ρ (.builtin b arguments) (.builtin b (arguments.map (Deferred.recode ρ)))
      (Value.recode ρ)
  | check (object : Object) : Recodes ρ (.check object) (.check (object.recode ρ)) id
  | readField (object : Object) (minDepth : Nat) (name : Name) (site : Location) :
    Recodes ρ (.readField object minDepth name site)
      (.readField (object.recode ρ) minDepth name site) (Value.recode ρ)
  | field (object : Object) (leaf : Leaf) (depth : Nat) (name : Name) (site : Location) :
    Recodes ρ (.field object leaf depth name site)
      (.field (object.recode ρ) (leaf.recode ρ) depth name site) (Value.recode ρ)
  | document (value : Value) : Recodes ρ (.document value) (.document (value.recode ρ)) id
  | equal (x y : Value) : Recodes ρ (.equal x y) (.equal (x.recode ρ) (y.recode ρ)) id
  | order (operator : BinaryOp) (x y : Value) :
    Recodes ρ (.order operator x y) (.order operator (x.recode ρ) (y.recode ρ)) id
  | program (code : Code) : Recodes ρ (.program code) (.program (ρ code)) (Value.recode ρ)
  | output (code : Code) : Recodes ρ (.output code) (.output (ρ code)) id

section

variable {task task' : Task} {g : task.Result → task'.Result} (h : task.Recodes ρ task' g)
  (states : a.Recodes ρ b)

include h states

/-- A result is known to both states or to neither. -/
theorem Task.Recodes.known? (session : Session) :
  task'.known? (session.recode ρ) b = (task.known? session a).map g
  := by
  cases h with
  | force thunk =>
    simp only [Task.known?, states.thunks, Array.getElem?_map]
    cases a.thunks[thunk.index]? with
    | none => rfl
    | some cell => cases cell <;> rfl
  | check object =>
    simp only [Task.known?, Object.isSettled, checkOf, states.checks, Object.hasAsserts_recode,
      Object.id_recode, Option.map_id]
    rfl
  | field object leaf depth name site =>
    simp only [Task.known?, Session.recode, Object.fieldKey_recode, states.fieldOf]
    split <;> rfl
  | _ => rfl

theorem Task.Recodes.begin :
  (task.begin a).Recodes ρ (task'.begin b)
  := by
  cases h with
  | check object =>
    refine { states with checks := ?_ }
    simp only [Task.begin, setCheck, states.checks, Object.id_recode]
  | _ => exact states

theorem Task.Recodes.settle (outcome : Except Failure task.Result) :
  (task.settle session a outcome).Recodes ρ (task'.settle (session.recode ρ) b (outcome.map g))
  := by
  cases h with
  | force thunk =>
    cases outcome with
    | error failure => exact states
    | ok value =>
      by_cases hsharing : session.sharing = true
      · have hsharing' : (session.recode ρ).sharing = true := hsharing
        simp only [Task.settle, Except.map, if_pos hsharing, if_pos hsharing']
        refine { states with thunks := ?_ }
        dsimp only [State.keepThunk]
        rw [states.thunks, Array.map_setIfInBounds]
        rfl
      · have hsharing' : ¬ (session.recode ρ).sharing = true := hsharing
        simp only [Task.settle, Except.map, if_neg hsharing, if_neg hsharing']
        exact states
  | check object =>
    refine { states with checks := ?_ }
    dsimp only [Task.settle, setCheck]
    rw [states.checks, Object.id_recode]
    cases outcome <;> rfl
  | field object leaf depth name site =>
    cases outcome with
    | error failure => exact states
    | ok value =>
      by_cases hsharing : session.sharing = true
      · have hsharing' : (session.recode ρ).sharing = true := hsharing
        simp only [Task.settle, Except.map, Object.fieldKey_recode, if_pos hsharing,
          if_pos hsharing']
        refine { states with fieldOf := ?_ }
        intro key
        simp only [State.keepField, Std.HashMap.getElem?_insert]
        split
        · rfl
        · exact states.fieldOf key
      · have hsharing' : ¬ (session.recode ρ).sharing = true := hsharing
        simp only [Task.settle, Except.map, if_neg hsharing, if_neg hsharing']
        exact states
  | _ => cases outcome <;> exact states

end

/-! ### Frames -/

/-- There is room for a frame in both states or in neither. -/
theorem State.Recodes.enter (states : a.Recodes ρ b) (frame? : Option Frame) :
  (∃ a' b', a.enter frame? = .ok a' ∧ b.enter frame? = .ok b' ∧ a'.Recodes ρ b') ∨
    ∃ failure, a.enter frame? = .error failure ∧ b.enter frame? = .error failure
  := by
  cases frame? with
  | none => exact .inl ⟨a, b, rfl, rfl, states⟩
  | some frame =>
    simp only [State.enter, states.stack, states.failure]
    cases a.stack.push? frame with
    | none => exact .inr ⟨_, rfl, rfl⟩
    | some stack => exact .inl ⟨_, _, rfl, rfl, { states with stack := rfl }⟩

theorem State.Recodes.leave (states : a.Recodes ρ b) (frame? : Option Frame) :
  (a.leave frame?).Recodes ρ (b.leave frame?)
  := by
  cases frame? with
  | none => exact states
  | some frame =>
    refine { states with stack := ?_ }
    dsimp only [State.leave]
    rw [states.stack]

/-! ### Computations -/

/-- Computations that differ in their codes only; `g` exchanges the codes of a result. -/
inductive Progress.Recodes (ρ : Recoding) {α β : Type} (g : α → β) :
    Progress α → Progress β → Prop where
  | finished (result : α) : Recodes ρ g (.finished result) (.finished (g result))
  | step {op op' : Operation} {k : op.Result → op'.Result} {rest : op.Result → Progress α}
      {rest' : op'.Result → Progress β} (operation : op.Recodes ρ op' k)
      (next : ∀ result, Recodes ρ g (rest result) (rest' (k result))) :
    Recodes ρ g (.step op rest) (.step op' rest')
  | wait {frame? : Option Frame} {task task' : Task} {k : task.Result → task'.Result}
      {rest : task.Result → Progress α} {rest' : task'.Result → Progress β}
      (tasks : task.Recodes ρ task' k)
      (next : ∀ result, Recodes ρ g (rest result) (rest' (k result))) :
    Recodes ρ g (.wait frame? task rest) (.wait frame? task' rest')

/-- Computations that go on differ in their codes only if their parts do so. -/
theorem Progress.Recodes.bind {α β γ δ : Type} {g : α → β} {k : γ → δ} {p : Progress α}
    {q : Progress β} {f : α → Progress γ} {f' : β → Progress δ} (h : p.Recodes ρ g q)
    (hnext : ∀ result, (f result).Recodes ρ k (f' (g result))) :
  (p.bind f).Recodes ρ k (q.bind f')
  := by
  induction h with
  | finished result => exact hnext result
  | step operation next ih => exact .step operation fun result => ih result
  | wait tasks next ih => exact .wait tasks fun result => ih result

/-- Actions whose computations differ in their codes only. -/
def Action.Recodes (ρ : Recoding) (session : Session) {α β : Type} (g : α → β) (x : Action α)
    (y : Action β) : Prop :=
  (x session).Recodes ρ g (y (session.recode ρ))

namespace Action.Recodes

variable {α β γ δ : Type} {g : α → β} {k : γ → δ}

theorem pure {r : α} :
  Action.Recodes ρ session g (Pure.pure r) (Pure.pure (g r))
  := .finished r

theorem pure_of_eq {r : α} {r' : β} (h : r' = g r) :
  Action.Recodes ρ session g (Pure.pure r) (Pure.pure r')
  := by
  rw [h]
  exact pure

theorem bind {x : Action α} {y : Action β} {f : α → Action γ} {f' : β → Action δ}
    (h : Action.Recodes ρ session g x y)
    (hnext : ∀ result, Action.Recodes ρ session k (f result) (f' (g result))) :
  Action.Recodes ρ session k (x >>= f) (y >>= f')
  := Progress.Recodes.bind h hnext

/-- Going on with a result that holds no codes. -/
theorem bind_id {x y : Action α} {f : α → Action γ} {f' : α → Action δ}
    (h : Action.Recodes ρ session id x y)
    (hnext : ∀ result, Action.Recodes ρ session k (f result) (f' result)) :
  Action.Recodes ρ session k (x >>= f) (y >>= f')
  := Progress.Recodes.bind h hnext

/-- Going on with the sessions. -/
theorem session_bind {f : Session → Action γ} {f' : Session → Action δ}
    (h : Action.Recodes ρ session k (f session) (f' (session.recode ρ))) :
  Action.Recodes ρ session k (Action.session >>= f) (Action.session >>= f')
  := h

theorem take {op op' : Operation} {k : op.Result → op'.Result} (h : op.Recodes ρ op' k) :
  Action.Recodes ρ session k (Action.take op) (Action.take op')
  := .step h .finished

theorem fail {failure : Failure} :
  Action.Recodes ρ session g (Action.fail failure) (Action.fail failure)
  := .step (.fail failure) nofun

theorem raise {cause : Cause} {site : Location} :
  Action.Recodes ρ session g (Action.raise cause site) (Action.raise cause site)
  := .step (.raise cause site) nofun

theorem request {task task' : Task} {k : task.Result → task'.Result} (h : task.Recodes ρ task' k) :
  Action.Recodes ρ session k (Action.request task) (Action.request task')
  := .wait h .finished

theorem inFrame {frame : Frame} {task task' : Task} {k : task.Result → task'.Result}
    (h : task.Recodes ρ task' k) :
  Action.Recodes ρ session k (Action.inFrame frame task) (Action.inFrame frame task')
  := .wait h .finished

end Action.Recodes

end Jsonnet
