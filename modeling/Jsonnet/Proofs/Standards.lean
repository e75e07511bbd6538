import Jsonnet.Proofs.FiniteNumbers
import Jsonnet.Proofs.Genuine
import Jsonnet.Proofs.Scoping

/-!
# Standards for data

A standard says what is asked of the numbers in data, of the code that waits in them, of the
literals of their objects and of the failures that are kept in place of values. Data are proper if
they are genuine and meet a standard. Nothing more than genuine data is asked for by the standard
that anything meets.
-/

namespace Jsonnet

/-- What is asked of numbers, of code, of the names of the fields of a literal and of failures.
Finite numbers, opposites, the numbers of sizes that may be measured and the literals of code have
to be in order, and so have all code below code, names without duplicates and the failures that are
no run-time errors. -/
structure Standard where
  number : Number → Prop
  code : Code → Prop
  size : Nat → Prop
  fields : List Name → Prop
  failure : Failure → Prop
  finite : ∀ {x : Number}, x.Finite → number x
  opposite : ∀ {x : Number}, number x → number (-x)
  measured : ∀ {n : Nat}, size n → number (.ofNat n)
  literal : ∀ {c : Code} {x : Number}, code c → c.node = .number x → number x
  below : ∀ {c : Code} {next : Spot}, code c → next ∈ c.arena.below c.root →
    code (c.sibling next.id)
  once : ∀ {names : List Name}, names.Nodup → fields names
  reported : ∀ {f : Failure}, f.cause? = none → failure f

/-- The standard that asks for nothing. -/
def Standard.any : Standard where
  number _ := True
  code _ := True
  size _ := True
  fields _ := True
  failure _ := True
  finite _ := trivial
  opposite _ := trivial
  measured _ := trivial
  literal _ _ := trivial
  below _ _ := trivial
  once _ := trivial
  reported _ := trivial

/-- A standard that asks for nothing but of the names of fields and of failures. -/
structure Standard.Lax (S : Standard) : Prop where
  number : ∀ x, S.number x
  code : ∀ c, S.code c
  size : ∀ n, S.size n

theorem Standard.any_lax :
  Standard.any.Lax
  := ⟨fun _ => trivial, fun _ => trivial, fun _ => trivial⟩

/-- What stands right below code in order is in order. -/
theorem Standard.child (S : Standard) {c : Code} (h : S.code c) {id : NodeId}
    (hid : id ∈ (c.arena.below c.root).map Spot.id) :
  S.code (c.sibling id)
  := by
  obtain ⟨next, hnext, rfl⟩ := List.mem_map.mp hid
  exact S.below h hnext

/-- The genuine data that meet a standard. -/
inductive Proper (S : Standard) (made : List Object) : Datum → Prop where
  | null : Proper S made (.value .null)
  | bool (b : Bool) : Proper S made (.value (.bool b))
  | number {x : Number} (number : S.number x) : Proper S made (.value (.number x))
  | string (s : String) : Proper S made (.value (.string s))
  | array {elements : Array Deferred} (memoised : ∀ d ∈ elements.toList, d.Memoised)
      (inside : ∀ d ∈ elements.toList, Proper S made (.deferred d)) :
    Proper S made (.value (.array elements))
  | function {f : Function} (function : Proper S made (.function f)) :
    Proper S made (.value (.function f))
  | object {o : Object} (object : o.MadeIn made) : Proper S made (.value (.object o))
  | closure {e : Env} {params : List Name} {body : Code} (env : Proper S made (.env e))
      (code : S.code body) :
    Proper S made (.function (.closure e params body))
  | builtin (b : Builtin) : Proper S made (.function (.builtin b))
  | ready {v : Value} (value : Proper S made (.value v)) : Proper S made (.deferred (.ready v))
  | suspended {s : Suspension} (suspension : Proper S made (.suspension s)) :
    Proper S made (.deferred (.suspended s))
  | shared (t : ThunkId) : Proper S made (.deferred (.shared t))
  | failed {f : Failure} (failure : S.failure f) : Proper S made (.deferred (.failed f))
  | code {context : FrameContext} {e : Env} {body : Code} (env : Proper S made (.env e))
      (code : S.code body) :
    Proper S made (.suspension (.code context e body))
  | call {f : Function} {ds : List Deferred} {site : Location}
      (function : Proper S made (.function f))
      (arguments : ∀ d ∈ ds, Proper S made (.deferred d)) :
    Proper S made (.suspension (.call f ds site))
  | bound {d : Deferred} (deferred : Proper S made (.deferred d)) :
    Proper S made (.binding (.value d))
  | slot (i : SlotId) : Proper S made (.binding (.slot i))
  | empty : Proper S made (.scope .empty)
  | layer {bs : List (Name × Binding)} {s : Scope}
      (bindings : ∀ b ∈ bs, Proper S made (.binding b.2)) (outer : Proper S made (.scope s)) :
    Proper S made (.scope (.layer bs s))
  | env {e : Env} (scope : Proper S made (.scope e.scope))
      (self : ∀ o, e.self? = some o → o.MadeIn made) :
    Proper S made (.env e)

section

variable {S : Standard} {made more : List Object}

/-- The standard that asks for nothing is met by genuine data. -/
theorem proper_any {x : Datum} :
  Proper .any made x ↔ Genuine made x
  := by
  constructor
  · intro h
    induction h with
    | null => exact .null
    | bool b => exact .bool b
    | number _ => exact .number _
    | string s => exact .string s
    | array memoised _ ih => exact .array memoised ih
    | function _ ih => exact .function ih
    | object object => exact .object object
    | closure _ _ ih => exact .closure ih
    | builtin b => exact .builtin b
    | ready _ ih => exact .ready ih
    | suspended _ ih => exact .suspended ih
    | shared t => exact .shared t
    | failed _ => exact .failed _
    | code _ _ ih => exact .code ih
    | call _ _ function arguments => exact .call function arguments
    | bound _ ih => exact .bound ih
    | slot i => exact .slot i
    | empty => exact .empty
    | layer _ _ bindings outer => exact .layer bindings outer
    | env _ self ih => exact .env ih self
  · intro h
    induction h with
    | null => exact .null
    | bool b => exact .bool b
    | number _ => exact .number trivial
    | string s => exact .string s
    | array memoised _ ih => exact .array memoised ih
    | function _ ih => exact .function ih
    | object object => exact .object object
    | closure _ ih => exact .closure ih trivial
    | builtin b => exact .builtin b
    | ready _ ih => exact .ready ih
    | suspended _ ih => exact .suspended ih
    | shared t => exact .shared t
    | failed f => exact .failed trivial
    | code _ ih => exact .code ih trivial
    | call _ _ function arguments => exact .call function arguments
    | bound _ ih => exact .bound ih
    | slot i => exact .slot i
    | empty => exact .empty
    | layer _ _ bindings outer => exact .layer bindings outer
    | env _ self ih => exact .env ih self

/-- Proper data stay proper when more objects are made. -/
theorem Proper.mono {x : Datum} (h : Proper S made x) (hle : made <+: more) :
  Proper S more x
  := by
  induction h with
  | null => exact .null
  | bool b => exact .bool b
  | number number => exact .number number
  | string s => exact .string s
  | array memoised _ ih => exact .array memoised ih
  | function _ ih => exact .function ih
  | object object => exact .object (object.mono hle)
  | closure _ code ih => exact .closure ih code
  | builtin b => exact .builtin b
  | ready _ ih => exact .ready ih
  | suspended _ ih => exact .suspended ih
  | shared t => exact .shared t
  | failed failure => exact .failed failure
  | code _ code ih => exact .code ih code
  | call _ _ function arguments => exact .call function arguments
  | bound _ ih => exact .bound ih
  | slot i => exact .slot i
  | empty => exact .empty
  | layer _ _ bindings outer => exact .layer bindings outer
  | env _ self ih => exact .env ih fun o ho => (self o ho).mono hle

/-- Genuine data stay genuine when more objects are made. -/
theorem Genuine.mono {x : Datum} (h : Genuine made x) (hle : made <+: more) :
  Genuine more x
  := proper_any.mp ((proper_any.mpr h).mono hle)

/-! ### Scopes -/

/-- What a name is bound to in a proper scope is proper. -/
theorem Proper.lookup {name : Name} {binding : Binding} : ∀ {scope : Scope},
    Proper S made (.scope scope) → scope.lookup name = some binding →
  Proper S made (.binding binding)
  | .empty, _, h => by cases h
  | .layer bindings outer, .layer inLayer inOuter, h => by
    rw [Scope.lookup] at h
    split at h
    case h_1 found hfound =>
      cases h
      obtain ⟨before, after, heq, -⟩ := List.lookup_eq_some_iff.mp hfound
      apply inLayer (name, binding)
      rw [← List.mem_reverse, heq]
      exact List.mem_append_right _ List.mem_cons_self
    case h_2 => exact inOuter.lookup h

theorem Proper.extend {scope : Scope} (h : Proper S made (.scope scope))
    {bindings : List (Name × Binding)} (inLayer : ∀ b ∈ bindings, Proper S made (.binding b.2)) :
  Proper S made (.scope (scope.extend bindings))
  := by
  rw [Scope.extend]
  split
  · exact h
  · exact .layer inLayer h

theorem Proper.bindValues {scope : Scope} (h : Proper S made (.scope scope))
    {values : List Deferred} (inside : ∀ d ∈ values, Proper S made (.deferred d))
    (names : List Name) :
  Proper S made (.scope (scope.bindValues (names.zip values)))
  := by
  apply h.extend
  intro b hb
  obtain ⟨⟨name, d⟩, hd, rfl⟩ := List.mem_map.mp hb
  exact .bound (inside d (List.of_mem_zip hd).2)

theorem Proper.bindSlots {scope : Scope} (h : Proper S made (.scope scope))
    (slots : List (Name × SlotId)) :
  Proper S made (.scope (scope.bindSlots slots))
  := by
  apply h.extend
  intro b hb
  obtain ⟨⟨name, i⟩, -, rfl⟩ := List.mem_map.mp hb
  exact .slot i

theorem Proper.withScope {env : Env} (h : Proper S made (.env env)) {scope : Scope}
    (hscope : Proper S made (.scope scope)) :
  Proper S made (.env (env.withScope scope))
  := by
  cases h with
  | env _ self => exact .env hscope self

/-! ### Objects -/

/-- A proper member of a literal. -/
def Member.IsProper (S : Standard) (made : List Object) : Member → Prop
  | .code body _ => S.code body
  | .ready value => Proper S made (.value value)

/-- A proper literal. -/
structure Leaf.IsProper (S : Standard) (made : List Object) (l : Leaf) : Prop where
  names : S.fields (l.fields.map Prod.fst)
  scope : Proper S made (.scope l.scope)
  field : ∀ field ∈ l.fields, field.2.member.IsProper S made
  assertion : ∀ member ∈ l.asserts, member.IsProper S made

/-- An object of proper literals. -/
inductive Object.IsProper (S : Standard) (made : List Object) : Object → Prop where
  | leaf {l : Leaf} (leaf : l.IsProper S made) : IsProper S made (.leaf l)
  | combine (id : ObjectId) {l r : Object} (left : l.IsProper S made) (right : r.IsProper S made) :
    IsProper S made (.combine id l r)

theorem Member.isProper_any {member : Member} :
  member.IsProper .any made ↔ member.IsGenuine made
  := by
  cases member with
  | code body extendsSuper => exact Iff.rfl
  | ready value => exact proper_any

theorem Leaf.isProper_any {l : Leaf} :
  l.IsProper .any made ↔ l.IsGenuine made
  := by
  constructor
  · intro h
    exact ⟨proper_any.mp h.scope, fun field hfield => Member.isProper_any.mp (h.field field hfield),
      fun member hmember => Member.isProper_any.mp (h.assertion member hmember)⟩
  · intro h
    exact ⟨trivial, proper_any.mpr h.scope,
      fun field hfield => Member.isProper_any.mpr (h.field field hfield),
      fun member hmember => Member.isProper_any.mpr (h.assertion member hmember)⟩

theorem Object.isProper_any {o : Object} :
  o.IsProper .any made ↔ o.IsGenuine made
  := by
  constructor
  · intro h
    induction h with
    | leaf leaf => exact .leaf (Leaf.isProper_any.mp leaf)
    | combine id _ _ left right => exact .combine id left right
  · intro h
    induction h with
    | leaf leaf => exact .leaf (Leaf.isProper_any.mpr leaf)
    | combine id _ _ left right => exact .combine id left right

theorem Member.IsProper.mono {member : Member} (h : member.IsProper S made)
    (hle : made <+: more) :
  member.IsProper S more
  := by
  cases member with
  | code body extendsSuper => exact h
  | ready value => exact Proper.mono h hle

theorem Leaf.IsProper.mono {l : Leaf} (h : l.IsProper S made) (hle : made <+: more) :
  l.IsProper S more
  where
  names := h.names
  scope := h.scope.mono hle
  field field hfield := (h.field field hfield).mono hle
  assertion member hmember := (h.assertion member hmember).mono hle

theorem Object.IsProper.mono {o : Object} (h : o.IsProper S made) (hle : made <+: more) :
  o.IsProper S more
  := by
  induction h with
  | leaf leaf => exact .leaf (leaf.mono hle)
  | combine id _ _ left right => exact .combine id left right

/-- The literals of a proper object are proper. -/
theorem Object.IsProper.leaf_of_mem {o : Object} (h : o.IsProper S made) {l : Leaf}
    {depth skipped : Nat} (hl : (l, depth) ∈ o.leavesFrom skipped) :
  l.IsProper S made
  := by
  induction h generalizing skipped with
  | leaf leaf =>
    cases List.mem_singleton.mp hl
    exact leaf
  | combine _ _ _ left right =>
    rw [Object.combine, leavesFrom, List.mem_append] at hl
    exact hl.elim right left

/-- The definition of a field in a proper literal is proper. -/
theorem Leaf.IsProper.member {l : Leaf} (h : l.IsProper S made) {name : Name} {field : Field}
    (hfield : l.field? name = some field) :
  field.member.IsProper S made
  := by
  obtain ⟨before, after, heq, -⟩ := List.lookup_eq_some_iff.mp hfield
  apply h.field (name, field)
  rw [heq]
  exact List.mem_append_right _ List.mem_cons_self

/-- The assertions of a proper object are proper, and so are their literals. -/
theorem Object.IsProper.assertions {o : Object} (h : o.IsProper S made) :
  ∀ a ∈ o.assertions, a.1.IsProper S made ∧ a.2.2.IsProper S made
  := by
  intro a ha
  obtain ⟨⟨l, depth⟩, hl, ha⟩ := List.mem_flatMap.mp ha
  obtain ⟨member, hmember, rfl⟩ := List.mem_map.mp ha
  have leaf := h.leaf_of_mem hl
  exact ⟨leaf, leaf.assertion member hmember⟩

theorem Leaf.IsProper.env {l : Leaf} (h : l.IsProper S made) {o : Object} (ho : o.MadeIn made)
    (depth : Nat) :
  Proper S made (.env (l.env o depth))
  := by
  refine .env h.scope ?_
  intro p hp
  cases hp
  exact ho

end

/-! ### States -/

/-- A proper cell. -/
def Cell.IsProper (S : Standard) (made : List Object) : Cell → Prop
  | .pending suspension => Proper S made (.suspension suspension)
  | .ready value => Proper S made (.value value)

/-- A state with the names that there were at the start, which has made some objects, each under
its place among them, and holds proper data only. -/
structure State.IsProper (S : Standard) (session : Session) (start : Interner)
    (made : List Object) (a : State) : Prop where
  names : start ≤ a.names
  count : made.length = a.checks.size
  numbered : ∀ {i : Nat} {o : Object}, made[i]? = some o → o.id.index = i ∧ o.IsProper S made
  library : session.library.MadeIn made
  thunk : ∀ {i : Nat} {cell : Cell}, a.thunks[i]? = some cell → cell.IsProper S made
  slot : ∀ {i : Nat} {d : Deferred}, a.slots.entries[i]? = some d → Proper S made (.deferred d)
  field : ∀ {key : FieldKey} {v : Value}, a.fields[key]? = some v → Proper S made (.value v)
  imported : ∀ {directory path : String} {d : Deferred},
    a.imports.code? directory path = some d → Proper S made (.deferred d)
  external : ∀ {name : Name} {d : Deferred}, a.externals[name]? = some d →
    Proper S made (.deferred d)

theorem Cell.isProper_any {made : List Object} {cell : Cell} :
  cell.IsProper .any made ↔ cell.IsGenuine made
  := by
  cases cell <;> exact proper_any

/-- The standard that asks for nothing is met by genuine states. -/
theorem State.isProper_any {session : Session} {made : List Object} {a : State} :
  a.IsProper .any session .onlyEmpty made ↔ a.IsGenuine session made
  := by
  constructor
  · intro h
    exact {
      count := h.count
      numbered := fun ho => (h.numbered ho).imp_right Object.isProper_any.mp
      library := h.library
      thunk := fun hcell => Cell.isProper_any.mp (h.thunk hcell)
      slot := fun hd => proper_any.mp (h.slot hd)
      field := fun hv => proper_any.mp (h.field hv)
      imported := fun hd => proper_any.mp (h.imported hd)
      external := fun hd => proper_any.mp (h.external hd) }
  · intro h
    exact {
      names := Interner.onlyEmpty_le a.names
      count := h.count
      numbered := fun ho => (h.numbered ho).imp_right Object.isProper_any.mpr
      library := h.library
      thunk := fun hcell => Cell.isProper_any.mpr (h.thunk hcell)
      slot := fun hd => proper_any.mpr (h.slot hd)
      field := fun hv => proper_any.mpr (h.field hv)
      imported := fun hd => proper_any.mpr (h.imported hd)
      external := fun hd => proper_any.mpr (h.external hd) }

/-- The environment of a file is proper wherever the library is made. -/
theorem base_proper {S : Standard} {session : Session} {made : List Object}
    (h : session.library.MadeIn made) :
  Proper S made (.env session.base)
  := by
  refine .env (.layer ?_ .empty) nofun
  intro b hb
  cases List.mem_singleton.mp hb
  exact .bound (.ready (.object h))

theorem Cell.IsProper.mono {S : Standard} {made more : List Object} {cell : Cell}
    (h : cell.IsProper S made) (hle : made <+: more) :
  cell.IsProper S more
  := by
  cases cell with
  | pending suspension => exact Proper.mono h hle
  | ready value => exact Proper.mono h hle

namespace State.IsProper

variable {S : Standard} {session : Session} {start : Interner} {made more : List Object}
  {a b : State}

/-- An object that is made has a state of its assertions. -/
theorem index_lt (h : a.IsProper S session start made) {o : Object} (ho : o.MadeIn made) :
  o.id.index < a.checks.size
  := by
  rw [← h.count]
  exact (List.getElem?_eq_some_iff.mp ho).choose

/-- An object that is made consists of proper literals. -/
theorem object (h : a.IsProper S session start made) {o : Object} (ho : o.MadeIn made) :
  o.IsProper S made
  := (h.numbered ho).2

/-- The stack and the counters do not matter, and neither does how far checks have come. Names
may be added. -/
theorem congr (h : a.IsProper S session start made) (names : a.names ≤ b.names)
    (checks : b.checks.size = a.checks.size) (thunks : b.thunks = a.thunks)
    (slots : b.slots = a.slots) (fields : b.fields = a.fields)
    (imports : b.imports = a.imports) (externals : b.externals = a.externals) :
  b.IsProper S session start made
  where
  names := h.names.trans names
  count := h.count.trans checks.symm
  numbered := h.numbered
  library := h.library
  thunk := by rw [thunks]; exact h.thunk
  slot := by rw [slots]; exact h.slot
  field := by rw [fields]; exact h.field
  imported := by rw [imports]; exact h.imported
  external := by rw [externals]; exact h.external

theorem setCheck (h : a.IsProper S session start made) (o : Object) (check : AssertionState) :
  (Jsonnet.setCheck o check a).IsProper S session start made
  := h.congr le_rfl (Array.size_setIfInBounds ..) rfl rfl rfl rfl rfl

theorem keepThunk (h : a.IsProper S session start made) (thunk : ThunkId) {v : Value}
    (hv : Proper S made (.value v)) :
  (a.keepThunk thunk v).IsProper S session start made
  := by
  refine { h with thunk := ?_ }
  intro i cell hcell
  rw [State.keepThunk, Array.getElem?_setIfInBounds] at hcell
  split at hcell
  case isFalse => exact h.thunk hcell
  case isTrue =>
    split at hcell
    case isTrue =>
      cases hcell
      exact hv
    case isFalse => cases hcell

theorem keepField (h : a.IsProper S session start made) (key : FieldKey) {v : Value}
    (hv : Proper S made (.value v)) :
  (a.keepField key v).IsProper S session start made
  := by
  refine { h with field := ?_ }
  intro other old hold
  rw [State.keepField, Std.HashMap.getElem?_insert] at hold
  split at hold
  case isFalse => exact h.field hold
  case isTrue =>
    cases hold
    exact hv

/-- New thunks of proper suspensions. -/
theorem appendThunks (h : a.IsProper S session start made) (cells : List Cell)
    (proper : ∀ cell ∈ cells, cell.IsProper S made) :
  IsProper S session start made { a with thunks := a.thunks ++ cells }
  := by
  refine { h with thunk := ?_ }
  intro i cell hcell
  rw [← Array.getElem?_toList, Array.toList_appendList, List.getElem?_append] at hcell
  split at hcell
  · exact h.thunk (by rw [← Array.getElem?_toList]; exact hcell)
  · exact proper cell (List.mem_of_getElem? hcell)

/-- A new object of proper literals. -/
theorem newObject (h : a.IsProper S session start made) (object : ObjectId → Object)
    (hid : ∀ i, (object i).id = i) (proper : ∀ i, (object i).IsProper S made) :
  ∃ more, made <+: more ∧ (a.newObject object).2.IsProper S session start more ∧
    (a.newObject object).1.MadeIn more
  := by
  have hle : made <+: made ++ [object ⟨a.checks.size⟩] := List.prefix_append _ _
  refine ⟨_, hle, ⟨h.names, ?_, ?_, h.library.mono hle, ?_, ?_, ?_, ?_, ?_⟩, ?_⟩
  · simp [State.newObject, h.count]
  · intro i o ho
    rw [List.getElem?_append] at ho
    split at ho
    · have := h.numbered ho
      exact ⟨this.1, this.2.mono hle⟩
    · have hi := (List.getElem?_eq_some_iff.mp ho).choose
      rw [List.length_singleton, Nat.lt_one_iff] at hi
      rw [hi] at ho
      cases ho
      refine ⟨?_, (proper _).mono hle⟩
      rw [hid, ← h.count]
      dsimp only
      omega
  · exact fun hcell => (h.thunk hcell).mono hle
  · exact fun hd => (h.slot hd).mono hle
  · exact fun hv => (h.field hv).mono hle
  · exact fun hd => (h.imported hd).mono hle
  · exact fun hd => (h.external hd).mono hle
  · rw [Object.MadeIn, State.newObject, hid, ← h.count]
    simp

end State.IsProper

end Jsonnet
