import Jsonnet.Proofs.Operations
import Jsonnet.Proofs.Outset
import Jsonnet.Proofs.Simulation

/-!
# Runs that are the same

Two runs on exact terms begin with alike states and keep them alike: what is paired has the
same number in both, the stacks are equal and so is what is counted. So they come to alike
results or to the same failure. Where every variable is bound, what is paired is there, and
every code that comes from outside refers to what is in scope of a file.
-/

namespace Jsonnet

/-- The terms on which runs are the same, and nothing is said about what codes refer to. -/
def Terms.exactly : Terms := ⟨True, False, False, False⟩

/-! ### Level worlds -/

/-- A world in which what is paired has the same number. Every object that is paired may be
`self`, and where nothing is said about names, all of them are known. -/
structure World.Level {τ : Terms} (w : World τ) : Prop where
  name : ¬ τ.known → ∀ n, w.name n
  thunk : ∀ {t t' : ThunkId}, w.thunk t t' → t = t'
  slot : ∀ {i j : SlotId}, w.slot i j → i = j
  object : ∀ {o p : Object}, w.object o p → o.id = p.id ∧ w.self o p

/-- The worlds of two runs that are the same. -/
abbrev LevelWorld (τ : Terms) : Type := { w : World τ // w.Level }

namespace LevelWorld

variable {τ : Terms} (w : LevelWorld τ)

/-- A level world in which some thunks and slots more are paired. -/
def extend (more : Pairing τ) (thunk : ∀ {t t' : ThunkId}, more.thunk t t' → t = t')
    (slot : ∀ {i j : SlotId}, more.slot i j → i = j)
    (none : ∀ {o p : Object}, ¬ more.self o p ∧ ¬ more.object o p) : LevelWorld τ where
  val := w.val.extend more (fun h => absurd h none.1) fun h => absurd h none.2
  property := {
    name := fun h n => .inl (w.property.name h n)
    thunk := fun h => h.elim w.property.thunk thunk
    slot := fun h => h.elim w.property.slot slot
    object := fun h => by
      obtain ⟨hid, hself⟩ := w.property.object (h.resolve_right none.2)
      exact ⟨hid, .inl hself⟩ }

theorem le_extend (more : Pairing τ) (thunk : ∀ {t t' : ThunkId}, more.thunk t t' → t = t')
    (slot : ∀ {i j : SlotId}, more.slot i j → i = j)
    (none : ∀ {o p : Object}, ¬ more.self o p ∧ ¬ more.object o p) :
  w ≤ w.extend more thunk slot none
  := Pairing.le_join_left w.val.toPairing more

/-- A level world in which the names that an interner gives out are known as well. -/
def knowing (names : Interner) : LevelWorld τ :=
  w.extend { Pairing.nothing τ with name := names.Gives } (fun h => h.elim) (fun h => h.elim)
    ⟨id, id⟩

theorem le_knowing (names : Interner) :
  w ≤ w.knowing names
  := Pairing.le_join_left w.val.toPairing { Pairing.nothing τ with name := names.Gives }

theorem named_knowing {names : Interner} {name : Name} (h : names.Gives name) :
  (w.knowing names).val.name name
  := .inr h

/-- The pairing of two objects, each of which may be `self`. -/
def pair (τ : Terms) (o p : Object) : Pairing τ :=
  { Pairing.nothing τ with
    object := fun o' p' => o' = o ∧ p' = p
    self := fun o' p' => o' = o ∧ p' = p }

/-- A level world in which two alike objects more are paired. -/
def extendObject (o p : Object) (hid : o.id = p.id) (alike : o.Alike w.val.toPairing p) :
    LevelWorld τ where
  val := w.val.extend (pair τ o p) (fun h => .inr h) (by
    rintro o p ⟨rfl, rfl⟩
    exact alike.mono (Pairing.le_join_left _ _))
  property := {
    name := fun h n => .inl (w.property.name h n)
    thunk := fun h => w.property.thunk (h.resolve_right id)
    slot := fun h => w.property.slot (h.resolve_right id)
    object := by
      rintro o' p' (h | ⟨rfl, rfl⟩)
      · exact (w.property.object h).imp_right .inl
      · exact ⟨hid, .inr ⟨rfl, rfl⟩⟩ }

theorem le_extendObject (o p : Object) (hid : o.id = p.id) (alike : o.Alike w.val.toPairing p) :
  w ≤ w.extendObject o p hid alike
  := Pairing.le_join_left w.val.toPairing (pair τ o p)

/-- In a level world, results that match are alike. -/
theorem alike_of_matches {v v' : Value} (h : v.Matches w.val.toPairing v') :
  Alike w.val.toPairing (.value v) (.value v')
  := by
  cases h with
  | null => exact .null
  | bool b => exact .bool b
  | number x => exact .number x
  | string s => exact .string s
  | array elements => exact .array elements
  | function function => exact .function function
  | object object => exact .object (w.property.object object).2

end LevelWorld

/-! ### How many thunks there are -/

theorem State.size_share_thunks (a : State) (suspensions : List Suspension) :
  (a.share suspensions).2.thunks.size = a.thunks.size + suspensions.length
  := by
  rw [share, ← Array.length_toList, Array.toList_appendList, List.length_append, List.length_map,
    Array.length_toList]

theorem State.size_bindLocals_thunks (a : State) (code : Code) (env : Env) (binds : List Bind) :
  (a.bindLocals code env binds).2.thunks.size = a.thunks.size + binds.length
  := by
  apply (size_share_thunks a (binds.map fun bind => .code (.thunk bind.name)
    (a.bindLocals code env binds).1 (code.sibling bind.body))).trans
  rw [List.length_map]

/-! ### Twin states -/

section

variable {τ : Terms}

/-- Cells that hold alike things. -/
inductive Cell.Alike (w : Pairing τ) : Cell → Cell → Prop where
  | pending {s s' : Suspension} (suspension : Jsonnet.Alike w (.suspension s) (.suspension s')) :
    Alike w (.pending s) (.pending s')
  | ready {v v' : Value} (value : Jsonnet.Alike w (.value v) (.value v')) :
    Alike w (.ready v) (.ready v')

/-- Entries with the same answer and alike codes. -/
structure ImportEntry.Alike (w : Pairing τ) (e e' : ImportEntry Deferred) : Prop where
  answer : e.answer = e'.answer
  code : Option.Rel (fun d d' => Jsonnet.Alike w (.deferred d) (.deferred d')) e.code e'.code

/-- Import caches with alike entries. -/
def ImportCache.Alike (w : Pairing τ) (c c' : ImportCache Deferred) : Prop :=
  ∀ key : String × String, Option.Rel (ImportEntry.Alike w) c.entries[key]? c'.entries[key]?

/-- States that differ by what is paired only; the stacks are not compared. -/
structure State.Twin (w : Pairing τ) (a b : State) : Prop where
  names : a.names = b.names
  counters : a.counters = b.counters
  checks : a.checks = b.checks
  thunks : List.Forall₂ (Cell.Alike w) a.thunks.toList b.thunks.toList
  slots : List.Forall₂ (fun d d' => Alike w (.deferred d) (.deferred d')) a.slots.entries.toList
    b.slots.entries.toList
  fields : ∀ key : FieldKey, Option.Rel (fun v v' => Alike w (.value v) (.value v')) a.fields[key]?
    b.fields[key]?
  imports : a.imports.Alike w b.imports
  externals : ∀ name : Name, Option.Rel (fun d d' => Alike w (.deferred d) (.deferred d'))
    a.externals[name]? b.externals[name]?

/-- Whether what is paired is there. -/
structure State.Holds (w : Pairing τ) (a : State) : Prop where
  thunk : ∀ {t t' : ThunkId}, w.thunk t t' → t.index < a.thunks.size
  slot : ∀ {i j : SlotId}, w.slot i j → i.index < a.slots.size

/-- Options that are related stay so in a larger relation. -/
theorem optionRel_imp {α β : Type} {r s : α → β → Prop} (hrs : ∀ a b, r a b → s a b)
    {x : Option α} {y : Option β} (h : Option.Rel r x y) :
  Option.Rel s x y
  := by
  cases h with
  | none => exact .none
  | some h => exact .some (hrs _ _ h)

variable {u w : Pairing τ} {a b : State}

theorem Cell.Alike.mono {c c' : Cell} (h : c.Alike u c') (hle : u ≤ w) :
  c.Alike w c'
  := by
  cases h with
  | pending suspension => exact .pending (suspension.mono hle)
  | ready value => exact .ready (value.mono hle)

theorem ImportCache.Alike.mono {c c' : ImportCache Deferred} (h : c.Alike u c') (hle : u ≤ w) :
  c.Alike w c'
  := by
  intro key
  apply optionRel_imp _ (h key)
  intro e e' he
  exact ⟨he.answer, optionRel_imp (fun _ _ hd => hd.mono hle) he.code⟩

namespace ImportCache

variable {c c' : ImportCache Deferred}

/-- Alike caches give the same answers, and stay alike. -/
theorem Alike.resolve (h : c.Alike w c') (importer : Importer) (directory path : String) :
  (c.resolve importer directory path).1 = (c'.resolve importer directory path).1 ∧
    (c.resolve importer directory path).2.Alike w (c'.resolve importer directory path).2
  := by
  rw [ImportCache.resolve, ImportCache.resolve]
  obtain ⟨he, he'⟩ | ⟨e, e', he, he', halike⟩ := optionRel_iff.mp (h (directory, path))
  · rw [he, he']
    refine ⟨rfl, ?_⟩
    intro key
    rw [Std.HashMap.getElem?_insert, Std.HashMap.getElem?_insert]
    split
    · exact .some ⟨rfl, .none⟩
    · exact h key
  · rw [he, he']
    exact ⟨halike.answer, h⟩

theorem Alike.code? (h : c.Alike w c') (directory path : String) :
  Option.Rel (fun d d' => Jsonnet.Alike w (.deferred d) (.deferred d')) (c.code? directory path)
    (c'.code? directory path)
  := by
  rw [ImportCache.code?, ImportCache.code?]
  obtain ⟨he, he'⟩ | ⟨e, e', he, he', halike⟩ := optionRel_iff.mp (h (directory, path))
  · rw [he, he']
    exact .none
  · rw [he, he']
    exact halike.code

/-- Keeping alike codes of an import. -/
theorem Alike.setCode (h : c.Alike w c') (directory path : String) {d d' : Deferred}
    (hd : Jsonnet.Alike w (.deferred d) (.deferred d')) :
  (c.setCode directory path d).Alike w (c'.setCode directory path d')
  := by
  rw [ImportCache.setCode, ImportCache.setCode]
  obtain ⟨he, he'⟩ | ⟨e, e', he, he', halike⟩ := optionRel_iff.mp (h (directory, path))
  · rw [he, he']
    exact h
  · rw [he, he']
    intro key
    rw [Std.HashMap.getElem?_insert, Std.HashMap.getElem?_insert]
    split
    · exact .some ⟨halike.answer, .some hd⟩
    · exact h key

end ImportCache

namespace State.Twin

theorem mono (h : a.Twin u b) (hle : u ≤ w) :
  a.Twin w b
  where
  names := h.names
  counters := h.counters
  checks := h.checks
  thunks := h.thunks.imp fun _ _ hc => hc.mono hle
  slots := h.slots.imp fun _ _ hd => hd.mono hle
  fields key := optionRel_imp (fun _ _ hv => hv.mono hle) (h.fields key)
  imports := h.imports.mono hle
  externals name := optionRel_imp (fun _ _ hd => hd.mono hle) (h.externals name)

theorem size_thunks (h : a.Twin w b) :
  a.thunks.size = b.thunks.size
  := h.thunks.length_eq

theorem size_slots (h : a.Twin w b) :
  a.slots.size = b.slots.size
  := h.slots.length_eq

theorem getElem?_thunks (h : a.Twin w b) (i : Nat) :
  Option.Rel (Cell.Alike w) a.thunks[i]? b.thunks[i]?
  := by
  rw [← Array.getElem?_toList, ← Array.getElem?_toList]
  exact forall₂_getElem? h.thunks i

theorem get?_slots (h : a.Twin w b) (slot : SlotId) :
  Option.Rel (fun d d' => Alike w (.deferred d) (.deferred d')) (a.slots.get? slot)
    (b.slots.get? slot)
  := by
  rw [Slots.get?, Slots.get?, ← Array.getElem?_toList, ← Array.getElem?_toList]
  exact forall₂_getElem? h.slots slot.index

theorem isSettled_eq (h : a.Twin w b) {o p : Object} (hid : o.id = p.id) (alike : o.Alike w p) :
  o.isSettled a = p.isSettled b
  := by
  rw [Object.isSettled, Object.isSettled, checkOf, checkOf, h.checks, hid, alike.hasAsserts_eq]

theorem setCheck (h : a.Twin w b) {o p : Object} (hid : o.id = p.id) (check : AssertionState) :
  (Jsonnet.setCheck o check a).Twin w (Jsonnet.setCheck p check b)
  := by
  refine { h with checks := ?_ }
  simp only [Jsonnet.setCheck]
  rw [h.checks, hid]

theorem appendThunks (h : a.Twin w b) {ss ss' : List Suspension}
    (alike : List.Forall₂ (fun s s' => Alike w (.suspension s) (.suspension s')) ss ss') :
  ({ a with thunks := a.thunks ++ ss.map Cell.pending } : State).Twin w
    { b with thunks := b.thunks ++ ss'.map Cell.pending }
  := by
  refine { h with thunks := ?_ }
  rw [Array.toList_appendList, Array.toList_appendList]
  apply List.rel_append h.thunks
  rw [List.forall₂_map_left_iff, List.forall₂_map_right_iff]
  exact alike.imp fun _ _ => .pending

/-- New thunks have the same numbers. -/
theorem newThunks_eq (h : a.Twin w b) {count : Nat} {t t' : ThunkId}
    (ht : (newThunks τ a b count).thunk t t') :
  t = t'
  := by
  obtain ⟨t⟩ := t
  obtain ⟨t'⟩ := t'
  obtain ⟨k, -, hi, hi'⟩ := ht
  rw [h.size_thunks] at hi
  exact congrArg ThunkId.mk (hi.trans hi'.symm)

/-- Setting alike things at one place of alike lists. -/
theorem forall₂_setIfInBounds {α β : Type} {r : α → β → Prop} {xs : Array α} {ys : Array β}
    (h : List.Forall₂ r xs.toList ys.toList) (i : Nat) {x : α} {y : β} (hxy : r x y) :
  List.Forall₂ r (xs.setIfInBounds i x).toList (ys.setIfInBounds i y).toList
  := by
  rw [Array.toList_setIfInBounds, Array.toList_setIfInBounds]
  generalize xs.toList = xs at h
  generalize ys.toList = ys at h
  induction h generalizing i with
  | nil => exact .nil
  | cons head tail ih =>
    cases i with
    | zero => exact .cons hxy tail
    | succ i => exact .cons head (ih i)

theorem keepThunk (h : a.Twin w b) (t : ThunkId) {v v' : Value}
    (hv : Alike w (.value v) (.value v')) :
  (a.keepThunk t v).Twin w (b.keepThunk t v')
  := { h with thunks := forall₂_setIfInBounds h.thunks t.index (.ready hv) }

theorem keepField (h : a.Twin w b) (key : FieldKey) {v v' : Value}
    (hv : Alike w (.value v) (.value v')) :
  (a.keepField key v).Twin w (b.keepField key v')
  := by
  refine { h with fields := ?_ }
  intro other
  simp only [State.keepField]
  rw [Std.HashMap.getElem?_insert, Std.HashMap.getElem?_insert]
  split
  · exact .some hv
  · exact h.fields other

/-! ### Bindings of `local` expressions -/

/-- Binding the same slots of alike tables to alike things. -/
theorem forall₂_fillAll {r : Deferred → Deferred → Prop} {slots slots' : Slots}
    (h : List.Forall₂ r slots.entries.toList slots'.entries.toList) (numbers : List SlotId)
    {ds ds' : List Deferred} (hds : List.Forall₂ r ds ds') :
  List.Forall₂ r (slots.fillAll (numbers.zip ds)).entries.toList
    (slots'.fillAll (numbers.zip ds')).entries.toList
  := by
  induction hds generalizing numbers slots slots' with
  | nil =>
    rw [List.zip_nil_right]
    exact h
  | cons head tail ih =>
    cases numbers with
    | nil => exact h
    | cons number numbers => exact ih (forall₂_setIfInBounds h number.index head) numbers

/-- The pairing of the thunks and the slots that a `local` expression makes. -/
def newLocals (τ : Terms) (a b : State) (count : Nat) : Pairing τ :=
  { newThunks τ a b count with
    slot := fun i j => i = j ∧ i ∈ (List.range count).map (a.slots.reserve count).1.plus }

/-- The tables of slots after a `local` expression. A slot that is not filled may be read
only where not every variable is bound. -/
theorem bindLocals_slots (h : a.Twin w b) (code : Code) (e e' : Env) (binds : List Bind)
    (hasSlots : τ.closed → (a.bindLocals code e binds).2.HasSlots)
    (hnew : newThunks τ a b binds.length ≤ w) :
  List.Forall₂ (fun d d' => Alike w (.deferred d) (.deferred d'))
    (a.bindLocals code e binds).2.slots.entries.toList
    (b.bindLocals code e' binds).2.slots.entries.toList
  := by
  have hthunks := newThunks_alike hnew
  by_cases hclosed : τ.closed
  · have hsize := hasSlots hclosed
    rw [HasSlots, size_bindLocals_slots] at hsize
    rw [a.bindLocals_eq code e binds hsize, b.bindLocals_eq code e' binds (h.size_slots ▸ hsize)]
    simp only [localState, Array.toList_appendList]
    exact List.rel_append h.slots hthunks
  · have hunfilled : Alike w (.deferred Slots.unfilled) (.deferred Slots.unfilled) :=
      .failed (.refl hclosed)
    have hreserved : List.Forall₂ (fun d d' => Alike w (.deferred d) (.deferred d'))
        (a.slots.reserve binds.length).2.entries.toList
        (b.slots.reserve binds.length).2.entries.toList := by
      simp only [Slots.reserve, Array.toList_appendList]
      apply List.rel_append h.slots
      rw [List.forall₂_same]
      intro d hd
      rw [List.eq_of_mem_replicate hd]
      exact hunfilled
    have hfill := forall₂_fillAll hreserved
      ((List.range binds.length).map (a.slots.reserve binds.length).1.plus) hthunks
    have hsize : a.slots.entries.size = b.slots.entries.size := h.size_slots
    simp only [Slots.reserve, ← hsize] at hfill
    simp only [State.bindLocals, State.share, List.length_map, Slots.reserve, ← hsize]
    exact hfill

theorem newThunks_le {count : Nat} (h : newLocals τ a b count ≤ w) :
  newThunks τ a b count ≤ w
  := ⟨h.1, h.2.1, fun _ _ hs => hs.elim, h.2.2.2⟩

/-- The environments and the states after a `local` expression. -/
theorem bindLocals (h : a.Twin w b) {code : Code} {e e' : Env} (binds : List Bind)
    (hasSlots : τ.closed → (a.bindLocals code e binds).2.HasSlots)
    (hnew : newLocals τ a b binds.length ≤ w) (named : code.Named w.name)
    (env : Alike w (.env e) (.env e'))
    (fits : ∀ bind ∈ binds, (code.sibling bind.body).Fits τ
      (fun name => name ∈ binds.map Bind.name ∨ e.scope.Binds name) e.self?.isSome) :
  Alike w (.env (a.bindLocals code e binds).1) (.env (b.bindLocals code e' binds).1) ∧
    (a.bindLocals code e binds).2.Twin w (b.bindLocals code e' binds).2
  := by
  have hslots := h.bindLocals_slots code e e' binds hasSlots (newThunks_le hnew)
  have hsize : a.slots.entries.size = b.slots.entries.size := h.size_slots
  have inner : Alike w (.env (a.bindLocals code e binds).1)
      (.env (b.bindLocals code e' binds).1) := by
    apply env.withScope
    apply (alike_env_iff.mp env).1.bindSlots
    rw [← hsize, List.forall₂_same]
    intro slot hslot
    exact Pairing.slot_mono hnew ⟨rfl, hslot⟩
  obtain ⟨hbinds, hself⟩ := a.bindLocals_env code e binds
  have hthunks : List.Forall₂ (fun s s' => Alike w (.suspension s) (.suspension s'))
      (binds.map fun bind => .code (.thunk bind.name) (a.bindLocals code e binds).1
        (code.sibling bind.body))
      (binds.map fun bind => .code (.thunk bind.name) (b.bindLocals code e' binds).1
        (code.sibling bind.body)) := by
    rw [List.forall₂_map_left_iff, List.forall₂_map_right_iff, List.forall₂_same]
    intro bind hbind
    refine .code Terms.agrees_rfl inner (named.sibling bind.body) ?_
    apply (fits bind hbind).mono hbinds
    rw [hself]
    exact id
  exact ⟨inner, { h.appendThunks hthunks with slots := hslots }⟩

end State.Twin

end

/-! ### Codes from outside -/

/-- Whatever a text is compiled to, with an interner that extends a given one, refers to
what is in scope of a file. -/
def Session.Suits (session : Session) (τ : Terms) (start : Interner) (file source : String) :
    Prop :=
  ∀ names code, start ≤ names → (session.frontEnd names file source).1 = .program code →
    code.FitsIn τ session.base

/-- Whatever codes that are given from outside are compiled to refers to what is in scope of a
file. -/
def Session.SuitsGiven (session : Session) (τ : Terms) (start : Interner) (kind : String)
    (values : List (Name × External)) : Prop :=
  ∀ name source, (name, External.code source) ∈ values → ∀ names code, start ≤ names →
    (session.frontEnd names s!"<{kind}:{names.lookup name}>" source).1 = .program code →
    code.FitsIn τ session.base

/-- A session in which names are never lost, and codes from outside refer to what is in
scope of a file. -/
structure Session.Closed (session : Session) (τ : Terms) (start : Interner) : Prop where
  appends : session.frontEnd.Appends
  externals : session.SuitsGiven τ start "extvar" session.externals
  arguments : session.SuitsGiven τ start "top-level-arg" session.arguments

/-! ### The comparison -/

namespace Twins

/-- What relates the states of the two runs. -/
structure Inv {τ : Terms} (session : Session) (start : Interner) (w : LevelWorld τ) (a b : State) :
    Prop where
  twin : a.Twin w.val.toPairing b
  holds : τ.closed → a.Holds w.val.toPairing
  names : τ.closed → start ≤ a.names
  known : τ.known → ∀ name, w.val.name name → a.names.Gives name
  library : w.val.self session.library session.library

/-- The states that a run may end in: where every variable is bound, slots have numbers of
their own, and every file that was imported refers to what is in scope of a file. -/
def Within (τ : Terms) (session : Session) (start : Interner) (a : State) : Prop :=
  τ.closed → a.HasSlots ∧
    ∀ (key : String × String) (entry : ImportEntry Deferred) (file : ImportedFile),
      a.imports.entries[key]? = some entry → entry.code.isSome → entry.answer = .ok file →
      session.Suits τ start file.foundAt file.content

/-- The comparison of two runs that are the same. -/
def comparison (τ : Terms) (first second : Session) (start : Interner) :
    Comparison τ first second where
  Stage := LevelWorld τ
  world := Subtype.val
  Inv := Inv first start
  Sound := Inv first start
  Open _ _ _ := True
  Within := Within τ first start
  Within' _ := True
  Allowed _ := True
  certain := False
  roomy := True

section

variable {τ : Terms} {first second : Session} {start : Interner} {w : LevelWorld τ}
  {a b a' b' : State}

/-- What relates the states after a change that pairs nothing more. -/
theorem Inv.change (inv : Inv first start w a b) (twin : a'.Twin w.val.toPairing b')
    (names : τ.closed ∨ τ.known → a.names ≤ a'.names) (thunks : a.thunks.size ≤ a'.thunks.size)
    (slots : a.slots.size ≤ a'.slots.size) :
  Inv first start w a' b'
  where
  twin := twin
  holds h := ⟨fun ht => ((inv.holds h).thunk ht).trans_le thunks,
    fun hs => ((inv.holds h).slot hs).trans_le slots⟩
  names h := (inv.names h).trans (names (.inl h))
  known h name hname := (inv.known h name hname).mono (names (.inr h))
  library := inv.library

/-- A result where nothing more is paired. -/
theorem Inv.result (inv : Inv first start w a b) {α β : Type} {R : World τ → α → β → Prop} {r : α}
    {r' : β} (result : R w.val r r') :
  (comparison τ first second start).Ends R w (.ok r, a) (.ok r', b)
  := .ok (C := comparison τ first second start) w le_rfl inv result

/-- The outcomes of operations that fail. -/
theorem Inv.fails (inv : Inv first start w a b) {α β : Type} {R : World τ → α → β → Prop}
    {f f' : Failure} (fails : τ.Fails f f') :
  (comparison τ first second start).Ends R w (.error f, a) (.error f', b)
  := .error (C := comparison τ first second start) fails ⟨w, le_rfl, inv⟩

variable (second) in
/-- New thunks of alike suspensions. -/
theorem Inv.share (inv : Inv first start w a b) {ss ss' : List Suspension}
    (alike : List.Forall₂ (fun s s' => Alike w.val.toPairing (.suspension s) (.suspension s'))
      ss ss') :
  (comparison τ first second start).Ends AlikeDeferreds w (.ok (a.share ss).1, (a.share ss).2)
    (.ok (b.share ss').1, (b.share ss').2)
  := by
  let w' := w.extend (newThunks τ a b ss.length) inv.twin.newThunks_eq (fun h => h.elim) ⟨id, id⟩
  have hle : w ≤ w' := w.le_extend _ _ _ _
  refine .ok (C := comparison τ first second start) w' hle ⟨?_, ?_, inv.names, ?_, ?_⟩ ?_
  · exact (inv.twin.mono hle).appendThunks (alike.imp fun _ _ h => h.mono hle)
  · intro h
    have hsize := a.size_share_thunks ss
    refine ⟨?_, fun hs => (inv.holds h).slot (hs.resolve_right id)⟩
    rintro t t' (ht | ⟨k, hk, ht, -⟩)
    · have := (inv.holds h).thunk ht
      omega
    · omega
  · exact fun h name hname => inv.known h name (hname.resolve_right id)
  · exact Pairing.self_mono hle inv.library
  · rw [AlikeDeferreds, alike_deferreds_iff, State.share, State.share, ← alike.length_eq]
    exact newThunks_alike (Pairing.le_join_right w.val.toPairing _)

/-- Larger interners, all of whose names are known from then on. -/
theorem Inv.grow (inv : Inv first start w a b) {names : Interner}
    (hle : τ.closed ∨ τ.known → a.names ≤ names) :
  Inv first start (w.knowing names) { a with names } { b with names }
  where
  twin := { inv.twin.mono (w.le_knowing names) with names := rfl }
  holds h := ⟨fun ht => (inv.holds h).thunk (ht.resolve_right id),
    fun hs => (inv.holds h).slot (hs.resolve_right id)⟩
  names h := (inv.names h).trans (hle (.inl h))
  known h name hname := by
    obtain hname | hname := hname
    · exact (inv.known h name hname).mono (hle (.inr h))
    · exact hname
  library := Pairing.self_mono (w.le_knowing names) inv.library

/-- New objects that are alike. -/
theorem Inv.newObject (inv : Inv first start w a b) (object object' : ObjectId → Object)
    (hid : ∀ i, (object i).id = i) (hid' : ∀ i, (object' i).id = i)
    (alike : ∀ i j, (object i).Alike w.val.toPairing (object' j)) :
  (comparison τ first second start).Ends Paired w
    (.ok (a.newObject object).1, (a.newObject object).2)
    (.ok (b.newObject object').1, (b.newObject object').2)
  := by
  have heq : (object ⟨a.checks.size⟩).id = (object' ⟨b.checks.size⟩).id := by
    rw [hid, hid', inv.twin.checks]
  let w' := w.extendObject (object ⟨a.checks.size⟩) (object' ⟨b.checks.size⟩) heq (alike _ _)
  have hle : w ≤ w' := w.le_extendObject _ _ _ _
  refine .ok (C := comparison τ first second start) w' hle ⟨?_, ?_, inv.names, ?_, ?_⟩
    (.inr ⟨rfl, rfl⟩)
  · refine { inv.twin.mono hle with checks := ?_ }
    simp only [State.newObject]
    rw [inv.twin.checks]
  · intro h
    exact ⟨fun ht => (inv.holds h).thunk (ht.resolve_right id),
      fun hs => (inv.holds h).slot (hs.resolve_right id)⟩
  · exact fun h name hname => inv.known h name (hname.resolve_right id)
  · exact Pairing.self_mono hle inv.library

/-- The bindings of a `local` expression. -/
theorem Inv.bindLocals (inv : Inv first start w a b) {code : Code} {e e' : Env}
    (binds : List Bind) (hasSlots : τ.closed → (a.bindLocals code e binds).2.HasSlots)
    (named : code.Named w.val.name) (env : Alike w.val.toPairing (.env e) (.env e'))
    (fits : ∀ bind ∈ binds, (code.sibling bind.body).Fits τ
      (fun name => name ∈ binds.map Bind.name ∨ e.scope.Binds name) e.self?.isSome) :
  (comparison τ first second start).Ends (Opened (binds.map Bind.name) e) w
    (.ok (a.bindLocals code e binds).1, (a.bindLocals code e binds).2)
    (.ok (b.bindLocals code e' binds).1, (b.bindLocals code e' binds).2)
  := by
  let w' := w.extend (State.Twin.newLocals τ a b binds.length) inv.twin.newThunks_eq
    (fun h => h.1) ⟨id, id⟩
  have hle : w ≤ w' := w.le_extend (State.Twin.newLocals τ a b binds.length) _ _ _
  obtain ⟨inner, twin⟩ := (inv.twin.mono hle).bindLocals binds hasSlots
    (Pairing.le_join_right w.val.toPairing _) (named.mono fun _ => .inl) (env.mono hle) fits
  obtain ⟨hbinds, hself⟩ := a.bindLocals_env code e binds
  refine .ok (C := comparison τ first second start) w' hle ⟨twin, ?_, inv.names, ?_, ?_⟩
    ⟨inner, hbinds, hself⟩
  · intro h
    have hsize := a.size_bindLocals_slots code e binds
    have hmax := hasSlots h
    rw [State.HasSlots, hsize] at hmax
    have hthunks := a.size_bindLocals_thunks code e binds
    constructor
    · rintro t t' (ht | ⟨k, hk, ht, -⟩)
      · have := (inv.holds h).thunk ht
        omega
      · omega
    · rintro i j (hi | ⟨-, hi⟩)
      · have := (inv.holds h).slot hi
        omega
      · rw [Slots.numbers_eq hmax] at hi
        obtain ⟨k, hk, rfl⟩ := List.mem_map.mp hi
        rw [List.mem_range'_1] at hk
        dsimp only
        omega
  · exact fun h name hname => inv.known h name (hname.resolve_right id)
  · exact Pairing.self_mono hle inv.library

/-! ### Operations -/

/-- What may come up may come up with a backtrace. -/
theorem allows_raised {cause : Cause} (h : τ.Allows (.runtime cause none))
    (trace : Option Backtrace) :
  τ.Allows (.runtime cause trace)
  := by
  cases cause <;> exact h

/-- A code refers to what is there where nothing is said about that. -/
theorem fitsIn_of_not_closed (housed : τ.housed → τ.closed) (h : ¬ τ.closed) (code : Code)
    (env : Env) :
  code.FitsIn τ env
  := ⟨fun hclosed => absurd hclosed h, fun hhoused => absurd (housed hhoused) h⟩

/-- Failures that are raised at the same location are the same. -/
theorem Inv.raised (inv : Inv first start w a b) (hstack : a.stack = b.stack) {cause : Cause}
    (allowed : τ.Allows (.runtime cause none)) (site : Location) :
  τ.Fails (a.failure cause site) (b.failure cause site)
  := by
  have heq : a.failure cause site = b.failure cause site := by
    rw [State.failure, State.failure, hstack, inv.twin.names]
  rw [← heq]
  exact .refl (allows_raised allowed _)

variable (second) in
/-- The deferred value of a compiled text. -/
theorem Inv.compile (inv : Inv first start w a b) (appends : τ.closed → first.frontEnd.Appends)
    (interns : τ.known → first.frontEnd.Interns) (context : FrameContext) (file source : String)
    (hfits : ∀ code, (first.frontEnd a.names file source).1 = .program code →
      code.FitsIn τ first.base) :
  (comparison τ first second start).Ends AlikeDeferred w (a.compile first context file source)
    (b.compile first context file source)
  := by
  have hnames : τ.closed ∨ τ.known → a.names ≤ (first.frontEnd a.names file source).2 := by
    rintro (h | h)
    · exact appends h a.names file source
    · exact (interns h).appends a.names file source
  have hnamed : ∀ code, (first.frontEnd a.names file source).1 = .program code →
      code.Named (w.knowing (first.frontEnd a.names file source).2).val.name := by
    intro code hcode
    by_cases h : τ.known
    · exact ((interns h).named a.names file source code hcode).mono fun _ => w.named_knowing
    · exact code.named_of_forall ((w.knowing _).property.name h)
  rw [State.compile, State.compile, ← inv.twin.names]
  rcases hcompiled : first.frontEnd a.names file source with ⟨compiled, names⟩
  rw [hcompiled] at hnames hnamed hfits
  have inv' := inv.grow hnames
  have hle := w.le_knowing names
  cases compiled with
  | rejected error =>
    exact .ok (C := comparison τ first second start) _ hle inv' (.failed (.refl trivial))
  | broken message =>
    exact .error (C := comparison τ first second start) (.refl trivial) ⟨_, hle, inv'⟩
  | program code =>
    have hshare := inv'.share second (.cons (.code (Terms.agrees_rfl (x := context))
      (base_alike inv'.library) (hnamed code rfl) (hfits code rfl)) .nil)
    simp only [State.share, List.map_cons, List.map_nil, Array.appendList_cons,
      Array.appendList_nil] at hshare
    cases hshare with
    | ok w' le inv' result =>
      cases result with
      | cons head _ =>
        exact .ok (C := comparison τ first second start) w' (hle.trans le) inv' head

/-- A text that compiles to a program has a deferred value. -/
theorem compile_isOk (first : Session) (a : State) (context : FrameContext) {file source : String}
    {code : Code} (h : (first.frontEnd a.names file source).1 = .program code) :
  ∃ d, (a.compile first context file source).1 = .ok d
  := by
  rw [State.compile]
  rcases hcompiled : first.frontEnd a.names file source with ⟨compiled, names⟩
  rw [hcompiled] at h
  cases h
  exact ⟨_, rfl⟩

section

variable (housed : τ.housed → τ.closed) (closed : τ.closed → first.Closed τ start)
  (interns : τ.known → first.frontEnd.Interns)

include housed closed interns

/-- The deferred value of an import. -/
theorem Inv.imported (inv : Inv first start w a b) (hstack : a.stack = b.stack)
    (directory : String) (path : Name) (site : Location)
    (hwithin : Within τ first start (a.imported first directory path site).2) :
  (comparison τ first second start).Ends AlikeDeferred w (a.imported first directory path site)
    (b.imported first directory path site)
  := by
  rw [State.imported] at hwithin ⊢
  rw [State.imported, ← inv.twin.names]
  generalize a.names.lookup path = text at hwithin ⊢
  have hcode := inv.twin.imports.code? directory text
  obtain ⟨hd, hd'⟩ | ⟨d, d', hd, hd', alike⟩ := optionRel_iff.mp hcode
  · have hresolve := inv.twin.imports.resolve first.importer directory text
    obtain ⟨entry, hentry, hanswer⟩ := a.imports.entry_resolve first.importer directory text
    simp only [hd, hd', State.importText] at hwithin ⊢
    generalize a.imports.resolve first.importer directory text = resolved
      at hresolve hentry hanswer hwithin ⊢
    generalize b.imports.resolve first.importer directory text = resolved' at hresolve ⊢
    obtain ⟨answer, imports⟩ := resolved
    obtain ⟨answer', imports'⟩ := resolved'
    obtain ⟨heq, himports⟩ := hresolve
    cases heq
    have inv₁ : Inv first start w { a with imports } { b with imports := imports' } :=
      inv.change { inv.twin with imports := himports } (fun _ => le_rfl) le_rfl le_rfl
    cases answer with
    | error e =>
      have allowed : τ.Allows (.runtime (.importFailed e.message) none) := trivial
      exact inv₁.fails (inv₁.raised hstack allowed site)
    | ok file =>
      dsimp only at hwithin hentry hanswer ⊢
      have hfits : ∀ code, (first.frontEnd a.names file.foundAt file.content).1 = .program code →
          code.FitsIn τ first.base := by
        intro code hprogram
        by_cases hclosed : τ.closed
        · obtain ⟨d, hok⟩ := compile_isOk first { a with imports } (.importing path) hprogram
          have hkept := State.Grows.compile_imports first { a with imports } (.importing path)
            file.foundAt file.content
          rcases hx : ({ a with imports } : State).compile first (.importing path) file.foundAt
            file.content with ⟨x, a₂⟩
          rw [hx] at hok hkept hwithin
          cases hok
          dsimp only at hkept hwithin
          refine (hwithin hclosed).2 (directory, text) { entry with code := some d } file ?_ rfl
            hanswer _ code (inv.names hclosed) hprogram
          rw [hkept, ImportCache.setCode, hentry]
          exact Std.HashMap.getElem?_insert_self
        · exact fitsIn_of_not_closed housed hclosed code first.base
      have hcompile := inv₁.compile second (fun h => (closed h).appends) interns
        (.importing path) file.foundAt file.content hfits
      generalize State.compile _ first (.importing path) file.foundAt file.content = x at hcompile ⊢
      generalize State.compile _ first (.importing path) file.foundAt file.content = y at hcompile ⊢
      cases hcompile with
      | overflow cramped => exact absurd trivial cramped
      | error fails sound => exact .error fails sound
      | @ok d d' a₂ b₂ w' le inv₂ result =>
        refine .ok (C := comparison τ first second start) w' le ?_ result
        exact inv₂.change { inv₂.twin with imports := inv₂.twin.imports.setCode _ _ result }
          (fun _ => le_rfl) le_rfl le_rfl
  · rw [hd, hd']
    exact inv.result alike

variable (second) in
/-- The deferred value of an external variable or an argument of the program. -/
theorem Inv.given (inv : Inv first start w a b) {kind : String}
    {values : List (Name × External)} (hvalues : τ.closed → first.SuitsGiven τ start kind values)
    {name : Name} {given : External} (hgiven : (name, given) ∈ values) (context : FrameContext) :
  (comparison τ first second start).Ends AlikeDeferred w (a.given first given kind name context)
    (b.given first given kind name context)
  := by
  cases given with
  | text value => exact inv.result (.ready (.string value))
  | code source =>
    rw [State.given, State.given, ← inv.twin.names]
    apply inv.compile second (fun h => (closed h).appends) interns
    intro code hcode
    by_cases hclosed : τ.closed
    · have hstart := inv.names hclosed
      exact hvalues hclosed name source hgiven a.names code hstart hcode
    · exact fitsIn_of_not_closed housed hclosed code first.base

/-- The deferred value of an external variable. -/
theorem Inv.external (inv : Inv first start w a b) {name : Name} {given : External}
    (defined : first.externals.reverse.lookup name = some given) :
  (comparison τ first second start).Ends AlikeDeferred w (a.external first name given)
    (b.external first name given)
  := by
  rw [State.external, State.external]
  obtain ⟨hd, hd'⟩ | ⟨d, d', hd, hd', alike⟩ := optionRel_iff.mp (inv.twin.externals name)
  · rw [hd, hd']
    obtain ⟨before, after, heq, -⟩ := List.lookup_eq_some_iff.mp defined
    have hmem : (name, given) ∈ first.externals := by
      rw [← List.mem_reverse, heq]
      exact List.mem_append_right _ List.mem_cons_self
    have hgiven := inv.given second housed closed interns (fun h => (closed h).externals) hmem
      (.external name)
    dsimp only
    generalize a.given first given "extvar" name (.external name) = x at hgiven ⊢
    generalize b.given first given "extvar" name (.external name) = y at hgiven ⊢
    cases hgiven with
    | overflow cramped => exact absurd trivial cramped
    | error fails sound => exact .error fails sound
    | @ok d d' a₁ b₁ w' le inv₁ result =>
      refine .ok (C := comparison τ first second start) w' le ?_ result
      refine inv₁.change { inv₁.twin with externals := ?_ } (fun _ => le_rfl) le_rfl le_rfl
      intro other
      rw [Std.HashMap.getElem?_insert, Std.HashMap.getElem?_insert]
      split
      · exact .some result
      · exact inv₁.twin.externals other
  · rw [hd, hd']
    exact inv.result alike

/-- Related operations come to alike results. -/
theorem Inv.operation (agrees : first.Agrees second) (inv : Inv first start w a b)
    {op op' : Operation} {T : World τ → op.Result → op'.Result → Prop}
    (hop : op.Related first w.val op' T) (exact : τ.exact) (hstack : a.stack = b.stack)
    (hwithin : Within τ first start (op.apply first a).2) :
  (comparison τ first second start).Ends T w (op.apply first a) (op'.apply second b)
  := by
  rw [Operation.apply_agrees agrees]
  have hnames := inv.twin.names
  cases hop with
  | count step =>
    have inv₁ : Inv first start w { a with counters := a.counters.count step }
        { b with counters := b.counters.count step } :=
      inv.change { inv.twin with counters := by rw [inv.twin.counters] } (fun _ => le_rfl) le_rfl le_rfl
    exact inv₁.result (R := Same) rfl
  | text known => exact inv.result (by rw [Same, hnames])
  | intern s =>
    rw [Operation.apply_intern, Operation.apply_intern, ← hnames]
    have hgrows := (Interner.stable_attempt s).grows a.names
    have inv₁ := inv.grow fun _ => hgrows
    have hle := w.le_knowing (Interner.attempt s a.names).2
    cases hattempt : (Interner.attempt s a.names).1 with
    | error e => exact .error (C := comparison τ first second start) (.refl trivial) ⟨_, hle, inv₁⟩
    | ok name =>
      refine .ok (C := comparison τ first second start) _ hle inv₁ ⟨rfl, ?_⟩
      exact w.named_knowing (Interner.gives_attempt hattempt)
  | internAll strings =>
    have hgrows := (Interner.stable_internAll strings).grows a.names
    simp only [Operation.apply, ← hnames]
    refine .ok (C := comparison τ first second start) _ (w.le_knowing _)
      (inv.grow fun _ => hgrows) ⟨rfl, ?_⟩
    intro n hn
    exact w.named_knowing (Interner.gives_internAll a.names strings n hn)
  | sort known =>
    simp only [Operation.apply, ← hnames]
    exact inv.result (R := KnownNames) ⟨rfl, fun n hn => known n ((Object.perm_sortNames _ _).mem_iff.mp hn)⟩
  | @literal s s' fields asserts scope name member assertion =>
    apply inv.newObject (fun id => .leaf ⟨id, s, fields, asserts⟩)
      (fun id => .leaf ⟨id, s', fields, asserts⟩) (fun _ => rfl) fun _ => rfl
    intro i j
    exact .leaf ⟨scope, rfl, rfl, name, member, assertion⟩
  | @combine l r l' r' left right =>
    apply inv.newObject (fun id => .combine id l r) (fun id => .combine id l' r') (fun _ => rfl)
      fun _ => rfl
    intro i j
    rw [Object.combine, Object.combine, ← (w.val.alike left).size_eq,
      ← (w.val.alike right).size_eq, (w.val.alike left).hasAsserts_eq,
      (w.val.alike right).hasAsserts_eq]
    exact .join (fun _ => rfl) (w.val.alike left) (w.val.alike right)
  | share alike => exact inv.share second alike
  | bindLocals binds named env fits =>
    exact inv.bindLocals binds (fun h => (hwithin h).1) named env fits
  | @slot s s' slot =>
    cases w.property.slot slot
    simp only [Operation.apply]
    obtain ⟨hd, hd'⟩ | ⟨d, d', hd, hd', alike⟩ := optionRel_iff.mp (inv.twin.get?_slots s)
    · rw [hd, hd']
      refine inv.fails (.refl ?_)
      intro hclosed
      have hlt := (inv.holds hclosed).slot slot
      rw [Slots.get?, Array.getElem?_eq_none_iff] at hd
      exact absurd hlt (Nat.not_lt.mpr hd)
    · rw [hd, hd']
      exact inv.result alike
  | @importText directory path site site' same_site =>
    cases same_site exact
    obtain ⟨heq, himports⟩ := inv.twin.imports.resolve first.importer directory path
    simp only [Operation.apply, State.importText]
    rw [← heq]
    have inv₁ : Inv first start w
        { a with imports := (a.imports.resolve first.importer directory path).2 }
        { b with imports := (b.imports.resolve first.importer directory path).2 } :=
      inv.change { inv.twin with imports := himports } (fun _ => le_rfl) le_rfl le_rfl
    cases (a.imports.resolve first.importer directory path).1 with
    | error e =>
      have allowed : τ.Allows (.runtime (.importFailed e.message) none) := trivial
      exact inv₁.fails (inv₁.raised hstack allowed site)
    | ok file => exact inv₁.result (R := Same) rfl
  | @imported directory path site site' same_site known =>
    cases same_site exact
    exact inv.imported housed closed interns hstack directory path site hwithin
  | external defined known => exact inv.external housed closed interns defined
  | @argument name given defined known =>
    obtain ⟨before, after, heq, -⟩ := List.lookup_eq_some_iff.mp defined
    have hmem : (name, given) ∈ first.arguments := by
      rw [heq]
      exact List.mem_append_right _ List.mem_cons_self
    exact inv.given second housed closed interns (fun h => (closed h).arguments) hmem _
  | @raise cause site site' same_site allowed =>
    cases same_site exact
    exact inv.fails (inv.raised hstack allowed site)
  | fail fails => exact inv.fails fails

end

/-! ### Kept results -/

/-- Outcomes in step are so after the tasks are settled. -/
theorem ends_settle {α β : Type} {R S : World τ → α → β → Prop} {x : Outcome α} {y : Outcome β}
    (h : (comparison τ first second start).Ends R w x y) {f : State → Except Failure α → State}
    {g : State → Except Failure β → State}
    (hok : ∀ w' r r' a b, w ≤ w' → Inv first start w' a b → R w'.val r r' →
      Inv first start w' (f a (.ok r)) (g b (.ok r')) ∧ S w'.val r r')
    (herror : ∀ w' e e' a b, w ≤ w' → Inv first start w' a b →
      Inv first start w' (f a (.error e)) (g b (.error e'))) :
  (comparison τ first second start).Ends S w (x.1, f x.2 x.1) (y.1, g y.2 y.1)
  := by
  cases h with
  | overflow cramped => exact absurd trivial cramped
  | ok w' le inv result =>
    obtain ⟨inv', result'⟩ := hok w' _ _ _ _ le inv result
    exact .ok (C := comparison τ first second start) w' le inv' result'
  | error fails sound =>
    obtain ⟨w', le, inv⟩ := sound
    exact .error (C := comparison τ first second start) fails ⟨w', le, herror w' _ _ _ _ le inv⟩

section

variable {fuel : Nat} (hcarries : (comparison τ first second start).Carries fuel)

include hcarries

/-- Tasks whose results are not known are carried out in step, if their actions are and
settling them leads to states that are still in step. -/
theorem carriesTask_unknown {task task' : Task} {S R : World τ → task.Result → task'.Result → Prop}
    {x : Outcome task.Result} (hmeets : (comparison τ first second start).Meets (fuel + 1) w a b)
    (hperform : task.perform first (fuel + 1) a = some x) (hends : x.EndsIn τ (Within τ first start))
    (hknown : task.known? first a = none) (hknown' : task'.known? second b = none)
    (hbegin : Inv first start w (task.begin a) (task'.begin b))
    (hstack : (task.begin a).stack = a.stack ∧ (task'.begin b).stack = b.stack)
    (hrun : Action.Related first second R w.val (task.action a) (task'.action b))
    (hwithin : ∀ a outcome, Within τ first start (task.settle first a outcome) →
      Within τ first start a)
    (hok : ∀ w' r r' a b, w ≤ w' → Inv first start w' a b → R w'.val r r' →
      Inv first start w' (task.settle first a (.ok r)) (task'.settle second b (.ok r')) ∧
        S w'.val r r')
    (herror : ∀ w' e e' a b, w ≤ w' → Inv first start w' a b →
      Inv first start w' (task.settle first a (.error e)) (task'.settle second b (.error e'))) :
  ∃ y, task'.perform second (fuel + 1) b = some y ∧
    (comparison τ first second start).Ends S w x y
  := by
  rw [Task.perform_unknown hknown] at hperform
  rw [Task.perform_unknown hknown']
  obtain ⟨x₀, hx₀, rfl⟩ := Option.map_eq_some_iff.mp hperform
  have hmeets' : (comparison τ first second start).Meets fuel w (task.begin a) (task'.begin b) := by
    refine ⟨hbegin, trivial, ?_, ?_⟩
    · rw [hstack.1, hstack.2]
      exact hmeets.room
    · rw [hstack.1, hstack.2]
      exact hmeets.stack
  obtain ⟨y₀, hy₀, hends₀⟩ := hcarries hrun hmeets' hx₀
    ⟨hwithin _ _ hends.state, hends.noOverflow⟩ (fun _ _ => trivial) fun h => h.elim
  rw [hy₀]
  exact ⟨_, rfl, ends_settle hends₀ hok herror⟩

theorem force (hsharing : second.sharing = first.sharing) {t t' : ThunkId}
    {S : World τ → Value → Value → Prop} :
  (comparison τ first second start).CarriesTask (fuel + 1) (.force t) (.force t') S
  := by
  intro w a b x hrelated hmeets hperform hends _ _
  have inv : Inv first start w a b := hmeets.inv
  cases hrelated with
  | force thunk =>
    cases w.property.thunk thunk
    have unknown (hknown : (Task.force t).known? first a = none)
        (hknown' : (Task.force t).known? second b = none)
        (hrun : Action.Related first second Matching w.val (computeThunk a t)
          (computeThunk b t)) := by
      refine carriesTask_unknown hcarries hmeets hperform hends hknown hknown' inv ⟨rfl, rfl⟩ hrun
        ?_ ?_ ?_ (S := Matching)
      · intro a outcome
        cases outcome with
        | error failure => exact id
        | ok value =>
          rw [Task.settle]
          split <;> exact id
      · intro w' r r' a b _ inv' hmatch
        refine ⟨?_, hmatch⟩
        rw [Task.settle, Task.settle, hsharing]
        split
        · exact inv'.change (inv'.twin.keepThunk t (w'.alike_of_matches hmatch)) (fun _ => le_rfl)
            (Array.size_setIfInBounds ..).ge le_rfl
        · exact inv'
      · exact fun _ _ _ _ _ _ inv' => inv'
    obtain ⟨hc, hc'⟩ | ⟨c, c', hc, hc', halike⟩ :=
      optionRel_iff.mp (inv.twin.getElem?_thunks t.index)
    · apply unknown
      · rw [Task.known?, hc]
      · rw [Task.known?, hc']
      · rw [computeThunk, computeThunk, hc, hc']
        refine Action.Related.fail (.refl ?_)
        intro hclosed
        have hlt := (inv.holds hclosed).thunk thunk
        exact absurd hlt (Nat.not_lt.mpr (Array.getElem?_eq_none_iff.mp hc))
    · cases halike with
      | ready value =>
        rw [Task.perform_ready hc] at hperform
        cases hperform
        exact ⟨_, Task.perform_ready hc', inv.result (w.val.matches_of_alike value)⟩
      | pending suspension =>
        apply unknown
        · rw [Task.known?, hc]
        · rw [Task.known?, hc']
        · rw [computeThunk, computeThunk, hc, hc']
          exact run_related suspension

theorem field (hsharing : second.sharing = first.sharing) {o p : Object} {l l' : Leaf}
    {depth depth' : Nat} {name name' : Name} {site site' : Location}
    {S : World τ → Value → Value → Prop} :
  (comparison τ first second start).CarriesTask (fuel + 1) (.field o l depth name site)
    (.field p l' depth' name' site') S
  := by
  intro w a b x hrelated hmeets hperform hends _ _
  have inv : Inv first start w a b := hmeets.inv
  cases hrelated with
  | field same_site self known hit hit' =>
    obtain ⟨hid, -⟩ := w.property.object (w.val.object_of_self self)
    have hkey : o.fieldKey name depth = p.fieldKey name depth := by
      rw [Object.fieldKey, Object.fieldKey, hid]
    have hknown : Option.Rel (fun v v' => Alike w.val.toPairing (.value v) (.value v'))
        ((Task.field o l depth name site).known? first a)
        ((Task.field p l' depth name site').known? second b) := by
      rw [Task.known?, Task.known?, hsharing, ← hkey]
      split
      · apply inv.twin.fields
      · exact .none
    obtain ⟨hv, hv'⟩ | ⟨v, v', hv, hv', value⟩ := optionRel_iff.mp hknown
    · refine carriesTask_unknown hcarries hmeets hperform hends hv hv' inv ⟨rfl, rfl⟩
        (field_related self known hit hit' same_site) ?_ ?_ ?_ (S := Matching)
      · intro a outcome
        cases outcome with
        | error failure => exact id
        | ok value =>
          rw [Task.settle]
          split <;> exact id
      · intro w' r r' a b _ inv' hmatch
        refine ⟨?_, hmatch⟩
        rw [Task.settle, Task.settle, hsharing, ← hkey]
        split
        · exact inv'.change (inv'.twin.keepField _ (w'.alike_of_matches hmatch)) (fun _ => le_rfl)
            le_rfl le_rfl
        · exact inv'
      · exact fun _ _ _ _ _ _ inv' => inv'
    · rw [Task.perform, hv] at hperform
      rw [Task.perform, hv']
      cases hperform
      exact ⟨_, rfl, inv.result (w.val.matches_of_alike value)⟩

theorem check {o p : Object} {S : World τ → Unit → Unit → Prop} :
  (comparison τ first second start).CarriesTask (fuel + 1) (.check o) (.check p) S
  := by
  intro w a b x hrelated hmeets hperform hends _ _
  have inv : Inv first start w a b := hmeets.inv
  cases hrelated with
  | check hop =>
    obtain ⟨hid, hself⟩ := w.property.object hop
    have hsettled := inv.twin.isSettled_eq hid (w.val.alike hop)
    have setCheck : ∀ {w' : LevelWorld τ} {a b : State} (check : AssertionState),
        Inv first start w' a b →
        Inv first start w' (Jsonnet.setCheck o check a) (Jsonnet.setCheck p check b) :=
      fun check inv' => inv'.change (inv'.twin.setCheck hid check) (fun _ => le_rfl) le_rfl le_rfl
    cases h : o.isSettled a with
    | true =>
      rw [Task.perform_check_settled h] at hperform
      cases hperform
      exact ⟨_, Task.perform_check_settled (hsettled.symm.trans h), inv.result hself⟩
    | false =>
      refine carriesTask_unknown hcarries hmeets hperform hends ?_ ?_ (setCheck _ inv) ⟨rfl, rfl⟩
        (objectAssertions_related hself) (fun _ _ => id) ?_ ?_
      · simp only [Task.known?, h, Bool.false_eq_true, if_false]
      · simp only [Task.known?, ← hsettled, h, Bool.false_eq_true, if_false]
      · intro w' r r' a b hle inv' _
        exact ⟨setCheck _ inv', Pairing.self_mono hle hself⟩
      · intro w' e e' a b _ inv'
        exact setCheck _ inv'

end

/-- What the comparison has to fulfil. -/
theorem lawful_comparison (exact : τ.exact) (housed : τ.housed → τ.closed)
    (agrees : first.Agrees second) (hsharing : second.sharing = first.sharing)
    (closed : τ.closed → first.Closed τ start) (interns : τ.known → first.frontEnd.Interns) :
  (comparison τ first second start).Lawful
  where
  agrees := agrees
  world_mono h := h
  sound h := h
  names _ := fun h => h.twin.names
  inv_stack _ _ h := h.change { h.twin with } (fun _ => le_rfl) le_rfl le_rfl
  sound_stack _ _ h := h.change { h.twin with } (fun _ => le_rfl) le_rfl le_rfl
  open_stack _ h := h
  open_mono _ _ _ _ _ := trivial
  within := {
    stack := fun _ h => h
    grows := by
      intro a b hgrows h hclosed
      obtain ⟨hasSlots, himports⟩ := h hclosed
      refine ⟨hgrows.hasSlots hasSlots, ?_⟩
      intro key entry file hentry hcode hanswer
      obtain ⟨entry', hentry', hanswer', hcode'⟩ := hgrows.imports key entry hentry
      obtain ⟨code, hcode⟩ := Option.isSome_iff_exists.mp hcode
      apply himports key entry' file hentry' _ (hanswer'.trans hanswer)
      rw [hcode' code hcode]
      rfl }
  within' := {
    stack := fun _ h => h
    grows := fun _ h => h }
  operation hop inv hstack hwithin _ :=
    inv.operation housed closed interns agrees hop exact (hstack exact) hwithin
  task := by
    intro fuel hcarries task task' S hkept w a b x hrelated
    have hcarries : (comparison τ first second start).Carries fuel := hcarries fuel le_rfl
    cases hrelated with
    | force thunk => exact force hcarries hsharing (.force thunk)
    | field same_site self known hit hit' =>
      exact field hcarries hsharing (.field same_site self known hit hit')
    | check object => exact check hcarries (.check object)
    | _ => cases hkept

end

/-- Actions in lockstep come to alike outcomes. -/
theorem runs {τ : Terms} (exact : τ.exact) {first second : Session} {start : Interner}
    (hC : (comparison τ first second start).Lawful) {w : LevelWorld τ} {a b : State}
    (inv : Inv first start w a b) (hstack : a.stack = b.stack) {α β : Type}
    {R : World τ → α → β → Prop} {x : Action α} {y : Action β}
    (h : Action.Related first second R w.val x y) {fuel : Nat} {z : Outcome α}
    (hz : (x first).resolve first (Task.perform first fuel) a = some z)
    (hwithin : Within τ first start z.2) :
  ∃ z', (y second).resolve second (Task.perform second fuel) b = some z' ∧
    (comparison τ first second start).Ends R w z z'
  := by
  have hmeets : (comparison τ first second start).Meets fuel w a b :=
    ⟨inv, trivial, fun _ => by rw [hstack], fun _ => hstack⟩
  exact hC.carries (hC.carriesTask fuel) h hmeets hz ⟨hwithin, absurd exact⟩ (fun _ _ => trivial)
    fun h => h.elim

/-- Outcomes that are the same, in states that are in step. -/
theorem ends_same {τ : Terms} (exact : τ.exact) {first second : Session} {start : Interner}
    {w : LevelWorld τ} {α : Type} {x y : Outcome α}
    (h : (comparison τ first second start).Ends Same w x y) :
  x.1 = y.1 ∧ ∃ w', w ≤ w' ∧ Inv first start w' x.2 y.2
  := by
  cases h with
  | overflow cramped => exact absurd trivial cramped
  | ok w' le inv result =>
    cases result
    exact ⟨rfl, w', le, inv⟩
  | error fails sound =>
    cases fails.same exact
    exact ⟨rfl, sound⟩

/-- A program that refers to what is in scope of a file comes to the same in both runs. -/
theorem output_related {τ : Terms} (hknown : ¬ τ.known) {first second : Session} {start : Interner}
    {w : LevelWorld τ} {a b : State} (inv : Inv first start w a b) {code : Code}
    (fits : code.FitsIn τ first.base) :
  Action.Related first second Same w.val code.output code.output
  := Action.Related.inFrame Terms.agrees_rfl (.output (code.named_of_forall (w.property.name hknown))
    fits (base_alike inv.library) fun given _ => w.property.name hknown given.1)

/-! ### New sessions -/

section

variable (τ : Terms) {session : Session} {names : Interner} (h : session.Prepared names)

/-- The world of two runs that begin in a new session: the library is paired with itself, and
where it matters, the names that are known are those that were given out. -/
def outset : LevelWorld τ where
  val := {
    toPairing := { LevelWorld.pair τ session.library session.library with
      name := fun n => τ.known → names.Gives n }
    object_of_self := id
    alike := by
      rintro o p ⟨rfl, rfl⟩
      exact h.library_alike fun _ hn _ => hn }
  property := {
    name := fun hknown _ h => absurd h hknown
    thunk := fun h => h.elim
    slot := fun h => h.elim
    object := by
      rintro o p ⟨rfl, rfl⟩
      exact ⟨rfl, rfl, rfl⟩ }

theorem outset_inv (maxStack : Nat) :
  Inv session names (outset τ h) (.new names maxStack) (.new names maxStack)
  where
  twin := {
    names := rfl
    counters := rfl
    checks := rfl
    thunks := .nil
    slots := .nil
    fields := fun key => by
      rw [State.new, Std.HashMap.getElem?_empty]
      exact .none
    imports := fun key => by
      rw [State.new, ImportCache.empty, Std.HashMap.getElem?_empty]
      exact .none
    externals := fun name => by
      rw [State.new, Std.HashMap.getElem?_empty]
      exact .none }
  holds _ := ⟨fun h => h.elim, fun h => h.elim⟩
  names _ := le_rfl
  known h _ hname := hname h
  library := ⟨rfl, rfl⟩

end

end Twins

end Jsonnet
