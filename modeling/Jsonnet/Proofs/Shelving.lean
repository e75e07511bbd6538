import Mathlib.Data.List.Forall2
import Jsonnet.Proofs.Collapsing
import Jsonnet.Proofs.Giving
import Jsonnet.Proofs.Storing

/-!
# Values of documents

While a program that is a document runs, every thunk stands for a part of the document and every
object for the fields of one. A shelf says which; it is only ever added to. What a value stands
for depends on the shelf, not on how far the thunks have been computed.
-/

namespace Jsonnet

/-- The document that each thunk stands for, and the fields that each object stands for. -/
structure Shelf where
  thunks : List Document
  objects : List (List (String × Document))

instance : LE Shelf where
  le a b := a.thunks <+: b.thunks ∧ a.objects <+: b.objects

instance : Preorder Shelf where
  le_refl _ := ⟨List.prefix_rfl, List.prefix_rfl⟩
  le_trans _ _ _ hab hbc := ⟨hab.1.trans hbc.1, hab.2.trans hbc.2⟩

section

variable {shelf larger : Shelf} {i : Nat}

theorem Shelf.thunk_mono (h : shelf ≤ larger) {document : Document}
    (hi : shelf.thunks[i]? = some document) :
  larger.thunks[i]? = some document
  := by
  obtain ⟨more, heq⟩ := h.1
  rw [← heq, List.getElem?_append_left (List.getElem?_eq_some_iff.mp hi).choose, hi]

theorem Shelf.object_mono (h : shelf ≤ larger) {fields : List (String × Document)}
    (hi : shelf.objects[i]? = some fields) :
  larger.objects[i]? = some fields
  := by
  obtain ⟨more, heq⟩ := h.2
  rw [← heq, List.getElem?_append_left (List.getElem?_eq_some_iff.mp hi).choose, hi]

end

/-- Lists stay related when an entry is replaced by a related one. -/
theorem forall₂_set {α β : Type} {R : α → β → Prop} {xs : List α} {ys : List β}
    (h : List.Forall₂ R xs ys) {i : Nat} {x : α} (hx : ∀ y, ys[i]? = some y → R x y) :
  List.Forall₂ R (xs.set i x) ys
  := by
  induction h generalizing i with
  | nil => exact .nil
  | cons hfirst hrest ih =>
    cases i with
    | zero => exact .cons (hx _ rfl) hrest
    | succ i => exact .cons hfirst (ih hx)

/-- An entry has a related one at the same place. -/
theorem exists_of_forall₂ {α β : Type} {R : α → β → Prop} {xs : List α} {ys : List β}
    (h : List.Forall₂ R xs ys) {i : Nat} {y : β} (hy : ys[i]? = some y) :
  ∃ x, xs[i]? = some x ∧ R x y
  := by
  induction h generalizing i with
  | nil => cases hy
  | cons hfirst hrest ih =>
    cases i with
    | zero =>
      cases hy
      exact ⟨_, rfl, hfirst⟩
    | succ i => exact ih hy

/-! ### What codes and values stand for -/

/-- The code is the expression of a collapsed document. -/
structure Code.Holds (names : Interner) (code : Code) (document : Document) : Prop where
  arena : code.arena.Holds names code.root document
  collapsed : document.IsCollapsed

/-- A member of an object literal that is the field of an object. -/
def IsField (names : Interner) (field : String × Document) (member : Name × Field) : Prop :=
  names.Numbers field.1 member.1 ∧
    ∃ code, member.2 = ⟨.inherit, .code code false⟩ ∧ code.Holds names field.2

/-- The thunk stands for a document. -/
def Deferred.Shows (shelf : Shelf) (deferred : Deferred) (document : Document) : Prop :=
  ∃ i, deferred = .shared ⟨i⟩ ∧ shelf.thunks[i]? = some document

/-- The value stands for a document. -/
inductive Value.Shows (names : Interner) (shelf : Shelf) : Value → Document → Prop where
  | null : Shows names shelf .null .null
  | bool (b : Bool) : Shows names shelf (.bool b) (.bool b)
  | number (x : Number) : Shows names shelf (.number x) (.number x)
  | string (s : String) : Shows names shelf (.string s) (.string s)
  | array {elements : Array Deferred} {documents : List Document}
      (shown : List.Forall₂ (Deferred.Shows shelf) elements.toList documents) :
    Shows names shelf (.array elements) (.array documents)
  | object {id : ObjectId} {scope : Scope} {members : List (Name × Field)}
      {fields : List (String × Document)} (known : shelf.objects[id.index]? = some fields)
      (ordered : Document.OrderedKeys fields)
      (shown : List.Forall₂ (IsField names) fields members) :
    Shows names shelf (.object (.leaf ⟨id, scope, members, []⟩)) (.object fields)

theorem Deferred.Shows.mono {shelf larger : Shelf} {deferred : Deferred} {document : Document}
    (h : deferred.Shows shelf document) (hle : shelf ≤ larger) :
  deferred.Shows larger document
  := by
  obtain ⟨i, rfl, hi⟩ := h
  exact ⟨i, rfl, Shelf.thunk_mono hle hi⟩

theorem Value.Shows.mono {names : Interner} {shelf larger : Shelf} {value : Value}
    {document : Document} (h : value.Shows names shelf document) (hle : shelf ≤ larger) :
  value.Shows names larger document
  := by
  cases h with
  | null => exact .null
  | bool b => exact .bool b
  | number x => exact .number x
  | string s => exact .string s
  | array shown => exact .array (shown.imp fun _ _ h => h.mono hle)
  | object known ordered shown => exact .object (Shelf.object_mono hle known) ordered shown

/-! ### States -/

/-- What a thunk holds stands for a document. -/
inductive Cell.Shows (names : Interner) (shelf : Shelf) : Cell → Document → Prop where
  | pending {context : FrameContext} {env : Env} {code : Code} {document : Document}
      (holds : code.Holds names document) :
    Shows names shelf (.pending (.code context env code)) document
  | ready {value : Value} {document : Document} (shown : value.Shows names shelf document) :
    Shows names shelf (.ready value) document

theorem Cell.Shows.mono {names : Interner} {shelf larger : Shelf} {cell : Cell}
    {document : Document} (h : cell.Shows names shelf document) (hle : shelf ≤ larger) :
  cell.Shows names larger document
  := by
  cases h with
  | pending holds => exact .pending holds
  | ready shown => exact .ready (shown.mono hle)

/-- Whether all that a state holds stands for what the shelf says. -/
structure Shelf.Fits (names : Interner) (shelf : Shelf) (a : State) : Prop where
  names_eq : a.names = names
  thunks : List.Forall₂ (Cell.Shows names shelf) a.thunks.toList shelf.thunks
  objects : a.checks.size = shelf.objects.length
  kept : ∀ {key : FieldKey} {value : Value}, a.fields[key]? = some value →
    ∃ fields, shelf.objects[key.object.index]? = some fields ∧
      ∀ s document, names.Numbers s key.name → (s, document) ∈ fields →
        value.Shows names shelf document

/-- Whether a task has a result with a property, and leaves a state behind that fits a larger
shelf. -/
def Task.Delivers (session : Session) (names : Interner) (shelf : Shelf) (a : State) (task : Task)
    (P : Shelf → task.Result → Prop) : Prop :=
  ∃ r b larger, task.Gives session a r b ∧ shelf ≤ larger ∧ larger.Fits names b ∧ P larger r

/-- Whether an action has a result with a property, and leaves a state behind that fits a larger
shelf. -/
def Action.Delivers {α : Type} (session : Session) (names : Interner) (shelf : Shelf) (a : State)
    (action : Action α) (P : Shelf → α → Prop) : Prop :=
  ∃ r b larger, action.Gives session a r b ∧ shelf ≤ larger ∧ larger.Fits names b ∧ P larger r

namespace Action.Delivers

variable {session : Session} {names : Interner} {shelf : Shelf} {a : State} {α β : Type}

theorem pure {P : Shelf → α → Prop} (fits : shelf.Fits names a) {r : α} (h : P shelf r) :
  Action.Delivers session names shelf a (Pure.pure r) P
  := ⟨r, a, shelf, .pure r, le_rfl, fits, h⟩

/-- What goes on starts in a state with the same frames. -/
theorem bind {x : Action α} {next : α → Action β} {P : Shelf → α → Prop} {Q : Shelf → β → Prop}
    (hx : x.Delivers session names shelf a P)
    (hnext : ∀ r b larger, b.stack = a.stack → shelf ≤ larger → larger.Fits names b → P larger r →
      (next r).Delivers session names larger b Q) :
  (x >>= next).Delivers session names shelf a Q
  := by
  obtain ⟨r, b, larger, gives, hle, fits, hr⟩ := hx
  obtain ⟨s, c, largest, gives', hle', fits', hs⟩ :=
    hnext r b larger gives.grows.stack hle fits hr
  exact ⟨s, c, largest, gives.bind gives', hle.trans hle', fits', hs⟩

theorem imp {x : Action α} {P Q : Shelf → α → Prop} (hx : x.Delivers session names shelf a P)
    (hPQ : ∀ larger r, shelf ≤ larger → P larger r → Q larger r) :
  x.Delivers session names shelf a Q
  := by
  obtain ⟨r, b, larger, gives, hle, fits, hr⟩ := hx
  exact ⟨r, b, larger, gives, hle, fits, hPQ larger r hle hr⟩

/-- An operation that leaves a fitting state behind. -/
theorem take {operation : Operation} {r : operation.Result} {b : State} {larger : Shelf}
    {P : Shelf → operation.Result → Prop} (h : operation.apply session a = (.ok r, b))
    (hle : shelf ≤ larger) (fits : larger.Fits names b) (hr : P larger r) :
  (Action.take operation).Delivers session names shelf a P
  := ⟨r, b, larger, .take h, hle, fits, hr⟩

theorem request {task : Task} {P : Shelf → task.Result → Prop}
    (h : task.Delivers session names shelf a P) :
  (Action.request task).Delivers session names shelf a P
  := by
  obtain ⟨r, b, larger, gives, hle, fits, hr⟩ := h
  exact ⟨r, b, larger, Action.Gives.request_iff.mpr gives, hle, fits, hr⟩

/-- The session is there. -/
theorem theSession (fits : shelf.Fits names a) :
  Action.session.Delivers session names shelf a fun _ r => r = session
  := ⟨session, a, shelf, Action.Gives.iff_resolve.mpr ⟨0, rfl⟩, le_rfl, fits, rfl⟩

end Action.Delivers

/-- A task is carried out by its action, if the state does not know its result and what fits
still fits once the task is settled. -/
theorem Task.Delivers.of_action {session : Session} {names : Interner} {shelf : Shelf} {a : State}
    {task : Task} {P : Shelf → task.Result → Prop} (unknown : task.known? session a = none)
    (begins : task.begin a = a) (h : (task.action a).Delivers session names shelf a P)
    (settles : ∀ r b larger, shelf ≤ larger → larger.Fits names b → P larger r →
      larger.Fits names (task.settle session b (.ok r))) :
  task.Delivers session names shelf a P
  := by
  obtain ⟨r, b, larger, gives, hle, fits, hr⟩ := h
  have gives' : (task.action a).Gives session (task.begin a) r b := begins.symm ▸ gives
  exact ⟨r, _, larger, .of_action unknown gives', hle, settles r b larger hle fits hr, hr⟩

/-- A task whose result the state knows. -/
theorem Task.Delivers.known {session : Session} {names : Interner} {shelf : Shelf} {a : State}
    {task : Task} {P : Shelf → task.Result → Prop} {r : task.Result}
    (h : task.known? session a = some r) (fits : shelf.Fits names a) (hr : P shelf r) :
  task.Delivers session names shelf a P
  := ⟨r, a, shelf, .known h, le_rfl, fits, hr⟩

/-- Frames have no part in what fits. -/
theorem Shelf.Fits.withStack {names : Interner} {shelf : Shelf} {a : State}
    (fits : shelf.Fits names a) (stack : CallStack) :
  shelf.Fits names { a with stack }
  := { fits with }

/-- A task inside a frame for which there is room. -/
theorem Action.Delivers.inFrame {session : Session} {names : Interner} {shelf : Shelf} {a : State}
    {frame : Frame} {task : Task} {P : Shelf → task.Result → Prop} (fits : shelf.Fits names a)
    (room : 0 < a.stack.room)
    (h : ∀ b, b.stack.room + 1 = a.stack.room → shelf.Fits names b →
      task.Delivers session names shelf b P) :
  (Action.inFrame frame task).Delivers session names shelf a P
  := by
  obtain ⟨stack, hpush, hroom⟩ : ∃ stack, a.stack.push? frame = some stack ∧
      stack.room + 1 = a.stack.room := by
    obtain ⟨room', hroom'⟩ := Nat.exists_eq_add_of_lt room
    rw [CallStack.push?]
    split
    case h_1 hzero => omega
    case h_2 hsucc => exact ⟨_, rfl, hsucc.symm⟩
  have enters : a.enter (some frame) = .ok { a with stack } := by
    simp only [State.enter, hpush]
  obtain ⟨r, b, larger, gives, hle, fits', hr⟩ := h _ hroom (fits.withStack stack)
  exact ⟨r, _, larger, .inFrame enters gives, hle, fits'.withStack _, hr⟩

namespace Shelf.Fits

variable {session : Session} {names : Interner} {shelf : Shelf} {a : State}

theorem count (fits : shelf.Fits names a) (step : Step) :
  (Action.count step).Delivers session names shelf a fun _ _ => True
  := .take rfl le_rfl { fits with } trivial

theorem text (fits : shelf.Fits names a) {name : Name} {s : String} (h : names.Numbers s name) :
  (Action.textOf name).Delivers session names shelf a fun _ r => r = s
  := by
  refine .take rfl le_rfl fits ?_
  rw [fits.names_eq, Interner.lookup_eq, h.string]
  rfl

/-- A string that has a name keeps it. -/
theorem intern (fits : shelf.Fits names a) {name : Name} {s : String} (h : names.Numbers s name) :
  (Action.intern s).Delivers session names shelf a fun _ r => r = name
  := by
  have happly : (Operation.intern s).apply session a = (.ok name, a) := by
    rw [Operation.apply, fits.names_eq, h.tryIntern_eq, ← fits.names_eq]
  exact .take happly le_rfl fits rfl

/-- New thunks stand for the documents of their codes. -/
theorem shareAll (fits : shelf.Fits names a) {suspensions : List Suspension}
    {documents : List Document}
    (shown : List.Forall₂ (fun suspension document =>
      (Cell.pending suspension).Shows names shelf document) suspensions documents) :
  (Action.shareAll suspensions).Delivers session names shelf a
    fun larger r => List.Forall₂ (Deferred.Shows larger) r documents
  := by
  have hle : shelf ≤ ⟨shelf.thunks ++ documents, shelf.objects⟩ :=
    ⟨List.prefix_append _ _, List.prefix_rfl⟩
  refine .take rfl hle ?_ ?_
  · constructor
    · exact fits.names_eq
    · simp only [Array.toList_appendList]
      refine List.rel_append (fits.thunks.imp fun _ _ h => h.mono hle) ?_
      exact List.forall₂_map_left_iff.mpr (shown.imp fun _ _ h => h.mono hle)
    · exact fits.objects
    · intro key value hkept
      obtain ⟨fields, hfields, hshown⟩ := fits.kept hkept
      exact ⟨fields, hfields, fun s document hs hmem => (hshown s document hs hmem).mono hle⟩
  · have hsize := fits.thunks.length_eq
    rw [Array.length_toList] at hsize
    simp only [hsize, List.forall₂_map_left_iff, shown.length_eq]
    apply List.forall₂_of_length_eq_of_get
    · rw [List.length_range']
    · intro i _ hi
      refine ⟨_, rfl, ?_⟩
      rw [List.get_eq_getElem, List.getElem_range', Nat.one_mul,
        List.getElem?_append_right (Nat.le_add_right _ _), Nat.add_sub_cancel_left]
      exact List.getElem?_eq_getElem hi

/-- A new object stands for its fields. -/
theorem literal (fits : shelf.Fits names a) {scope : Scope} {members : List (Name × Field)}
    {fields : List (String × Document)} (ordered : Document.OrderedKeys fields)
    (shown : List.Forall₂ (IsField names) fields members) :
  (Action.literal scope members []).Delivers session names shelf a
    fun larger r => (Value.object r).Shows names larger (.object fields)
  := by
  have hle : shelf ≤ ⟨shelf.thunks, shelf.objects ++ [fields]⟩ :=
    ⟨List.prefix_rfl, List.prefix_append _ _⟩
  refine .take rfl hle ?_ ?_
  · constructor
    · exact fits.names_eq
    · exact fits.thunks.imp fun _ _ h => h.mono hle
    · simp [fits.objects]
    · intro key value hkept
      obtain ⟨fields, hfields, hshown⟩ := fits.kept hkept
      exact ⟨fields, Shelf.object_mono hle hfields,
        fun s document hs hmem => (hshown s document hs hmem).mono hle⟩
  · refine .object ?_ ordered shown
    simp [fits.objects]

/-- The document of a thunk is kept. -/
theorem keepThunk (fits : shelf.Fits names a) {thunk : ThunkId} {value : Value}
    (h : ∀ document, shelf.thunks[thunk.index]? = some document → value.Shows names shelf document) :
  shelf.Fits names (a.keepThunk thunk value)
  where
  names_eq := fits.names_eq
  thunks := by
    rw [State.keepThunk]
    simp only [Array.toList_setIfInBounds]
    exact forall₂_set fits.thunks fun document hdocument => .ready (h document hdocument)
  objects := fits.objects
  kept := fits.kept

/-- The value of a field is kept. -/
theorem keepField (fits : shelf.Fits names a) {key : FieldKey} {value : Value}
    {fields : List (String × Document)} (known : shelf.objects[key.object.index]? = some fields)
    (h : ∀ s document, names.Numbers s key.name → (s, document) ∈ fields →
      value.Shows names shelf document) :
  shelf.Fits names (a.keepField key value)
  where
  names_eq := fits.names_eq
  thunks := fits.thunks
  objects := fits.objects
  kept := by
    intro key' value' hkept
    rw [State.keepField] at hkept
    simp only [Std.HashMap.getElem?_insert] at hkept
    split at hkept
    case isTrue heq =>
      cases hkept
      rw [← beq_iff_eq.mp heq]
      exact ⟨fields, known, h⟩
    case isFalse => exact fits.kept hkept

end Shelf.Fits

end Jsonnet
