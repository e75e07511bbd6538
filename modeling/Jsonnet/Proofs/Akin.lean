import Jsonnet.Proofs.Fields
import Jsonnet.Proofs.Worlds

/-!
# Data that are akin

Two runs may number strings differently, and what nobody looks at may be different in them.
Thunks, slots and objects have the same numbers in both. Data are akin if they differ only by
names that stand for each other, by codes of a kind and by what is bound to names that are
dead: a scope is compared with respect to the names that are live in it. Fields may be in another
order, as far as the kind allows for it.
-/

namespace Jsonnet

/-! ### What stands for what -/

/-- What two runs have in common: the names that stand for each other, and the thunks and
slots that are live. The empty name stands for itself. -/
structure Bond where
  name : Name → Name → Prop
  thunk : ThunkId → Prop
  slot : SlotId → Prop
  empty : name .empty .empty
  left_unique : ∀ {n m n'}, name n n' → name m n' → n = m
  right_unique : ∀ {n n' m'}, name n n' → name n m' → n' = m'

namespace Bond

/-- A bond extends another one if it has in common what the other has. -/
instance : LE Bond where
  le u w := (∀ n n', u.name n n' → w.name n n') ∧ (∀ t, u.thunk t → w.thunk t) ∧
    ∀ s, u.slot s → w.slot s

instance : Preorder Bond where
  le_refl _ := ⟨fun _ _ h => h, fun _ h => h, fun _ h => h⟩
  le_trans _ _ _ := by
    rintro ⟨hname, hthunk, hslot⟩ ⟨hname', hthunk', hslot'⟩
    exact ⟨fun n n' h => hname' n n' (hname n n' h), fun t h => hthunk' t (hthunk t h),
      fun s h => hslot' s (hslot s h)⟩

variable {u w : Bond}

theorem name_mono (h : u ≤ w) {n n' : Name} (hname : u.name n n') :
  w.name n n'
  := h.1 n n' hname

theorem names_mono (h : u ≤ w) {ns ns' : List Name} (hnames : List.Forall₂ u.name ns ns') :
  List.Forall₂ w.name ns ns'
  := hnames.imp fun _ _ => name_mono h

theorem thunk_mono (h : u ≤ w) {t : ThunkId} (hthunk : u.thunk t) :
  w.thunk t
  := h.2.1 t hthunk

theorem slot_mono (h : u ≤ w) {s : SlotId} (hslot : u.slot s) :
  w.slot s
  := h.2.2 s hslot

/-- Names that stand for each other are equal to others that do on both sides or on neither. -/
theorem eq_iff {n n' m m' : Name} (h : w.name n n') (h' : w.name m m') :
  n = m ↔ n' = m'
  := by
  constructor
  · rintro rfl
    exact w.right_unique h h'
  · rintro rfl
    exact w.left_unique h h'

theorem beq_eq {n n' m m' : Name} (h : w.name n n') (h' : w.name m m') :
  (n == m) = (n' == m')
  := by
  rw [Bool.eq_iff_iff, beq_iff_eq, beq_iff_eq]
  exact eq_iff h h'

/-- Lists of names that stand for each other, in the same way. -/
theorem eq_iff_names {ns ns' ms ms' : List Name} (h : List.Forall₂ w.name ns ns')
    (h' : List.Forall₂ w.name ms ms') :
  ns = ms ↔ ns' = ms'
  := by
  induction h generalizing ms ms' with
  | nil => cases h' <;> simp
  | cons head tail ih =>
    cases h' with
    | nil => simp
    | cons head' tail' => rw [List.cons.injEq, List.cons.injEq, eq_iff head head', ih tail']

theorem mem_iff {n n' : Name} {ns ns' : List Name} (h : w.name n n')
    (hs : List.Forall₂ w.name ns ns') :
  n ∈ ns ↔ n' ∈ ns'
  := by
  induction hs with
  | nil => simp
  | cons head tail ih => rw [List.mem_cons, List.mem_cons, eq_iff h head, ih]

end Bond

/-! ### Other orders -/

/-- Whether a list stands for another one: it is the same, or, where that is allowed, the same in
another order, and its entries have different keys. -/
def Reorders (allowed : Prop) {α β : Type} (key : α → β) (xs ys : List α) : Prop :=
  xs = ys ∨ allowed ∧ (xs.map key).Nodup ∧ xs.Perm ys

namespace Reorders

variable {allowed : Prop} {α β : Type} {key : α → β} {xs ys : List α}

theorem refl (allowed : Prop) (key : α → β) (xs : List α) :
  Reorders allowed key xs xs
  := .inl rfl

theorem perm (h : Reorders allowed key xs ys) :
  xs.Perm ys
  := by
  obtain rfl | ⟨-, -, h⟩ := h
  · exact .refl xs
  · exact h

/-- Where no other order is allowed, the lists are the same. -/
theorem eq (h : Reorders allowed key xs ys) (hallowed : ¬ allowed) :
  xs = ys
  := h.resolve_right fun h => hallowed h.1

/-- The same is found under a key. -/
theorem lookup_eq {xs ys : List (Name × β)} (h : Reorders allowed Prod.fst xs ys) (name : Name) :
  xs.lookup name = ys.lookup name
  := by
  obtain rfl | ⟨-, distinct, perm⟩ := h
  · rfl
  · exact Object.lookup_eq_of_perm distinct perm name

end Reorders

/-! ### Places, frames and failures -/

section

variable (ν : Name → Name → Prop)

/-- Locations in files whose names stand for each other. -/
structure Location.Akin (l l' : Location) : Prop where
  file : ν l.file l'.file
  span : l.span = l'.span

/-- Contexts that tell about names that stand for each other. -/
inductive FrameContext.Akin : FrameContext → FrameContext → Prop where
  | main : Akin .main .main
  | thunk {n n' : Name} (name : ν n n') : Akin (.thunk n) (.thunk n')
  | function : Akin .function .function
  | builtin (name : String) : Akin (.builtin name) (.builtin name)
  | field {n n' : Name} (name : ν n n') : Akin (.field n) (.field n')
  | assertion : Akin .assertion .assertion
  | importing {n n' : Name} (path : ν n n') : Akin (.importing n) (.importing n')
  | external {n n' : Name} (name : ν n n') : Akin (.external n) (.external n')
  | topLevelArgument {n n' : Name} (name : ν n n') :
    Akin (.topLevelArgument n) (.topLevelArgument n')

structure Frame.Akin (f f' : Frame) : Prop where
  location : f.location.Akin ν f'.location
  context : f.context.Akin ν f'.context

/-- Failures that differ at most by the name of the file that a front end complains about. -/
inductive Failure.Akin : Failure → Failure → Prop where
  | runtime (cause : Cause) (trace : Option Backtrace) : Akin (.runtime cause trace) (.runtime cause trace)
  | internal (message : String) : Akin (.internal message) (.internal message)
  | breakdown (message : String) : Akin (.breakdown message) (.breakdown message)
  | static (message : String) {l l' : Option Location} (location : Option.Rel (Location.Akin ν) l l') :
    Akin (.static ⟨message, l⟩) (.static ⟨message, l'⟩)

variable {ν} {μ : Name → Name → Prop} (h : ∀ n n', ν n n' → μ n n')

include h

theorem Location.Akin.mono {l l' : Location} (hl : l.Akin ν l') :
  l.Akin μ l'
  := ⟨h _ _ hl.file, hl.span⟩

theorem FrameContext.Akin.mono {c c' : FrameContext} (hc : c.Akin ν c') :
  c.Akin μ c'
  := by
  cases hc with
  | main => exact .main
  | thunk name => exact .thunk (h _ _ name)
  | function => exact .function
  | builtin name => exact .builtin name
  | field name => exact .field (h _ _ name)
  | assertion => exact .assertion
  | importing path => exact .importing (h _ _ path)
  | external name => exact .external (h _ _ name)
  | topLevelArgument name => exact .topLevelArgument (h _ _ name)

theorem Frame.Akin.mono {f f' : Frame} (hf : f.Akin ν f') :
  f.Akin μ f'
  := ⟨hf.location.mono h, hf.context.mono h⟩

theorem Failure.Akin.mono {f f' : Failure} (hf : f.Akin ν f') :
  f.Akin μ f'
  := by
  cases hf with
  | runtime cause trace => exact .runtime cause trace
  | internal message => exact .internal message
  | breakdown message => exact .breakdown message
  | static message location =>
    cases location with
    | none => exact .static message .none
    | some hl => exact .static message (.some (hl.mono h))

end

/-! ### Codes -/

section

variable (ν : Name → Name → Prop) (sub : (Name → Prop) → NodeId → NodeId → Prop) (dead reorders : Prop)
  (live : Name → Prop) (a a' : Arena)

/-- Definitions of fields whose names and bodies are akin. -/
structure FieldDef.Akin (f f' : FieldDef) : Prop where
  name : sub live f.name f'.name
  visibility : f.visibility = f'.visibility
  body : sub live f.body f'.body
  extendsSuper : f.extendsSuper = f'.extendsSuper

/-- Bindings of names that stand for each other; what is bound to a dead name does not matter. -/
structure Bind.Akin (b b' : Bind) : Prop where
  name : ν b.name b'.name
  body : live b.name → sub live b.body b'.body

/-- Things of which those are related that some propositions ask for. -/
inductive Partly {α β : Type} (R : α → β → Prop) : List Prop → List α → List β → Prop where
  | nil : Partly R [] [] []
  | cons {p : Prop} {ps : List Prop} {x : α} {y : β} {xs : List α} {ys : List β} (head : p → R x y)
      (tail : Partly R ps xs ys) : Partly R (p :: ps) (x :: xs) (y :: ys)

/-- Nodes of a kind: they differ by names that stand for each other and by what is dead. What is
bound to a name in a `local` is dead if neither the body nor what is bound to a live name uses
that name, and an argument of a function literal is dead if the body of the literal does not use
the parameter. Where fields may be reordered, those of an object literal may stand in another order
if their names are different string literals. `sub` tells which expressions below are akin, for the
names that are live there. -/
inductive Node.Akin : Node → Node → Prop where
  | null : Akin .null .null
  | bool (b : Bool) : Akin (.bool b) (.bool b)
  | number (x : Number) : Akin (.number x) (.number x)
  | string {s s' : Name} (value : ν s s') : Akin (.string s) (.string s')
  | var {n n' : Name} (name : ν n n') (alive : live n) : Akin (.var n) (.var n')
  | locals {inner : Name → Prop} {bs bs' : Slice Bind} {b b' : NodeId}
      (binds : List.Forall₂ (Bind.Akin ν sub inner) (a.readBinds bs) (a'.readBinds bs'))
      (body : sub inner b b')
      (outer : ∀ n, inner n → n ∈ (a.readBinds bs).map Bind.name ∨ live n)
      (alive : ¬ dead → ∀ bind ∈ a.readBinds bs, inner bind.name) :
    Akin (.locals bs b) (.locals bs' b')
  | function {inner : Name → Prop} {ps ps' : Slice Name} {b b' : NodeId}
      (params : List.Forall₂ ν (a.readParams ps) (a'.readParams ps'))
      (body : sub inner b b') (outer : ∀ n, inner n → n ∈ a.readParams ps ∨ live n) :
    Akin (.function ps b) (.function ps' b')
  | apply {f f' : NodeId} {xs xs' : Slice NodeId} (target : sub live f f')
      (arguments : List.Forall₂ (sub live) (a.readList xs) (a'.readList xs')) :
    Akin (.apply f xs) (.apply f' xs')
  | applyLiteral {inner : Name → Prop} {f f' b b' : NodeId} {xs xs' : Slice NodeId}
      {ps ps' : Slice Name} (literal : a.node f = .function ps b)
      (literal' : a'.node f' = .function ps' b')
      (params : List.Forall₂ ν (a.readParams ps) (a'.readParams ps'))
      (body : sub inner b b') (outer : ∀ n, inner n → n ∈ a.readParams ps ∨ live n)
      (length : (a.readList xs).length = (a'.readList xs').length)
      (arguments : (a.readList xs).length = (a.readParams ps).length →
        Partly (sub live) ((a.readParams ps).map inner) (a.readList xs) (a'.readList xs')) :
    Akin (.apply f xs) (.apply f' xs')
  | array {xs xs' : Slice NodeId}
      (elements : List.Forall₂ (sub live) (a.readList xs) (a'.readList xs')) :
    Akin (.array xs) (.array xs')
  | object {xs xs' : Slice NodeId} {fs fs' : Slice FieldDef}
      (asserts : List.Forall₂ (sub live) (a.readList xs) (a'.readList xs'))
      (fields : List.Forall₂ (FieldDef.Akin sub live) (a.readFields fs) (a'.readFields fs')) :
    Akin (.object xs fs) (.object xs' fs')
  | reordered {xs xs' : Slice NodeId} {fs fs' : Slice FieldDef} {gs : List FieldDef}
      {names : List Name} (allowed : reorders)
      (asserts : List.Forall₂ (sub live) (a.readList xs) (a'.readList xs'))
      (fields : List.Forall₂ (FieldDef.Akin sub live) (a.readFields fs) gs)
      (perm : gs.Perm (a'.readFields fs'))
      (labels : List.Forall₂ (fun f name => a.node f.name = .string name) (a.readFields fs) names)
      (distinct : names.Nodup) :
    Akin (.object xs fs) (.object xs' fs')
  | binary (op : BinaryOp) {x x' y y' : NodeId} (left : sub live x x') (right : sub live y y') :
    Akin (.binary op x y) (.binary op x' y')
  | unary (op : UnaryOp) {x x' : NodeId} (operand : sub live x x') :
    Akin (.unary op x) (.unary op x')
  | conditional {c c' x x' y y' : NodeId} (condition : sub live c c') (whenTrue : sub live x x')
      (whenFalse : sub live y y') :
    Akin (.conditional c x y) (.conditional c' x' y')
  | index {x x' i i' : NodeId} (target : sub live x x') (position : sub live i i') :
    Akin (.index x i) (.index x' i')
  | superIndex {i i' : NodeId} (position : sub live i i') : Akin (.superIndex i) (.superIndex i')
  | selfRef : Akin .selfRef .selfRef
  | error {x x' : NodeId} (message : sub live x x') : Akin (.error x) (.error x')
  | importCode {p p' : Name} (path : ν p p') : Akin (.importCode p) (.importCode p')
  | importText {p p' : Name} (path : ν p p') : Akin (.importText p) (.importText p')

end

/-- A kind of codes: which codes stand for each other, given the names that do and the names that
are live in the first of them. Akin codes stand at the same place, and their nodes are akin. -/
structure Kinship where
  code : (Name → Name → Prop) → (Name → Prop) → Code → Code → Prop
  /-- Whether what is bound by a `local` may be dead. -/
  dead : Prop
  /-- Whether the fields of an object may be in another order. -/
  reorders : Prop
  mono : ∀ {ν μ : Name → Name → Prop} {live c c'}, code ν live c c' → (∀ n n', ν n n' → μ n n') →
    code μ live c c'
  location : ∀ {ν live c c'}, code ν live c c' → c.location.Akin ν c'.location
  node : ∀ {ν live c c'}, code ν live c c' →
    Node.Akin ν (fun live id id' => code ν live (c.sibling id) (c'.sibling id')) dead reorders
      live c.arena c'.arena c.node c'.node

/-! ### Data -/

/-- The pieces of data that values are made of. Scopes, and what belongs to them, come with the
names that are live in them. -/
inductive Item where
  | value (value : Value)
  | function (function : Function)
  | deferred (deferred : Deferred)
  | deferreds (deferreds : List Deferred)
  | suspension (suspension : Suspension)
  | binding (binding : Binding)
  | bindings (live : Name → Prop) (bindings : List (Name × Binding))
  | scope (live : Name → Prop) (scope : Scope)
  | env (live : Name → Prop) (env : Env)
  | member (live : Name → Prop) (member : Member)
  | members (live : Name → Prop) (members : List Member)
  | fields (live : Name → Prop) (fields : List (Name × Field))
  | leaf (leaf : Leaf)
  | object (object : Object)

/-- The data that are akin. -/
inductive Akin (κ : Kinship) (w : Bond) : Item → Item → Prop where
  | null : Akin κ w (.value .null) (.value .null)
  | bool (b : Bool) : Akin κ w (.value (.bool b)) (.value (.bool b))
  | number (x : Number) : Akin κ w (.value (.number x)) (.value (.number x))
  | string (s : String) : Akin κ w (.value (.string s)) (.value (.string s))
  | array {xs ys : Array Deferred} (elements : Akin κ w (.deferreds xs.toList) (.deferreds ys.toList)) :
    Akin κ w (.value (.array xs)) (.value (.array ys))
  | function {f g : Function} (function : Akin κ w (.function f) (.function g)) :
    Akin κ w (.value (.function f)) (.value (.function g))
  | object {o p : Object} (object : Akin κ w (.object o) (.object p)) :
    Akin κ w (.value (.object o)) (.value (.object p))
  | closure {live inner : Name → Prop} {e e' : Env} {ps ps' : List Name} {c c' : Code}
      (env : Akin κ w (.env live e) (.env live e')) (params : List.Forall₂ w.name ps ps')
      (body : κ.code w.name inner c c') (outer : ∀ n, inner n → n ∈ ps ∨ live n) :
    Akin κ w (.function (.closure e ps c)) (.function (.closure e' ps' c'))
  | builtin (b : Builtin) : Akin κ w (.function (.builtin b)) (.function (.builtin b))
  | ready {v v' : Value} (value : Akin κ w (.value v) (.value v')) :
    Akin κ w (.deferred (.ready v)) (.deferred (.ready v'))
  | suspended {s s' : Suspension} (suspension : Akin κ w (.suspension s) (.suspension s')) :
    Akin κ w (.deferred (.suspended s)) (.deferred (.suspended s'))
  | shared {t : ThunkId} (alive : w.thunk t) : Akin κ w (.deferred (.shared t)) (.deferred (.shared t))
  | failed {f f' : Failure} (failure : f.Akin w.name f') :
    Akin κ w (.deferred (.failed f)) (.deferred (.failed f'))
  | nil : Akin κ w (.deferreds []) (.deferreds [])
  | cons {d d' : Deferred} {ds ds' : List Deferred} (head : Akin κ w (.deferred d) (.deferred d'))
      (tail : Akin κ w (.deferreds ds) (.deferreds ds')) :
    Akin κ w (.deferreds (d :: ds)) (.deferreds (d' :: ds'))
  | code {live : Name → Prop} {c c' : FrameContext} {e e' : Env} {b b' : Code}
      (context : c.Akin w.name c') (env : Akin κ w (.env live e) (.env live e'))
      (body : κ.code w.name live b b') :
    Akin κ w (.suspension (.code c e b)) (.suspension (.code c' e' b'))
  | call {f g : Function} {ds ds' : List Deferred} {l l' : Location}
      (function : Akin κ w (.function f) (.function g))
      (arguments : Akin κ w (.deferreds ds) (.deferreds ds')) (site : l.Akin w.name l') :
    Akin κ w (.suspension (.call f ds l)) (.suspension (.call g ds' l'))
  | bound {d d' : Deferred} (deferred : Akin κ w (.deferred d) (.deferred d')) :
    Akin κ w (.binding (.value d)) (.binding (.value d'))
  | slot {s : SlotId} (alive : w.slot s) : Akin κ w (.binding (.slot s)) (.binding (.slot s))
  | unbound {live : Name → Prop} : Akin κ w (.bindings live []) (.bindings live [])
  | bind {live : Name → Prop} {n n' : Name} {b b' : Binding} {bs bs' : List (Name × Binding)}
      (name : w.name n n') (head : Akin κ w (.binding b) (.binding b'))
      (tail : Akin κ w (.bindings live bs) (.bindings live bs')) :
    Akin κ w (.bindings live ((n, b) :: bs)) (.bindings live ((n', b') :: bs'))
  | hidden {live : Name → Prop} {n n' : Name} {b b' : Binding} {bs bs' : List (Name × Binding)}
      (name : w.name n n') (dead : ¬ live n)
      (tail : Akin κ w (.bindings live bs) (.bindings live bs')) :
    Akin κ w (.bindings live ((n, b) :: bs)) (.bindings live ((n', b') :: bs'))
  | empty {live : Name → Prop} : Akin κ w (.scope live .empty) (.scope live .empty)
  | layer {live outside : Name → Prop} {bs bs' : List (Name × Binding)} {s s' : Scope}
      (bindings : Akin κ w (.bindings live bs) (.bindings live bs'))
      (scope : Akin κ w (.scope outside s) (.scope outside s'))
      (outer : ∀ n, live n → n ∈ bs.map Prod.fst ∨ outside n) :
    Akin κ w (.scope live (.layer bs s)) (.scope live (.layer bs' s'))
  | outside {live : Name → Prop} {s s' : Scope} {depth : Nat}
      (scope : Akin κ w (.scope live s) (.scope live s')) :
    Akin κ w (.env live ⟨s, none, depth⟩) (.env live ⟨s', none, depth⟩)
  | inside {live : Name → Prop} {s s' : Scope} {o p : Object} {depth : Nat}
      (scope : Akin κ w (.scope live s) (.scope live s'))
      (self : Akin κ w (.object o) (.object p)) :
    Akin κ w (.env live ⟨s, some o, depth⟩) (.env live ⟨s', some p, depth⟩)
  | computed {live : Name → Prop} {c c' : Code} (body : κ.code w.name live c c')
      (extendsSuper : Bool) :
    Akin κ w (.member live (.code c extendsSuper)) (.member live (.code c' extendsSuper))
  | given {live : Name → Prop} {v v' : Value} (value : Akin κ w (.value v) (.value v')) :
    Akin κ w (.member live (.ready v)) (.member live (.ready v'))
  | unasserted {live : Name → Prop} : Akin κ w (.members live []) (.members live [])
  | assert {live : Name → Prop} {m m' : Member} {ms ms' : List Member}
      (head : Akin κ w (.member live m) (.member live m'))
      (tail : Akin κ w (.members live ms) (.members live ms')) :
    Akin κ w (.members live (m :: ms)) (.members live (m' :: ms'))
  | fieldless {live : Name → Prop} : Akin κ w (.fields live []) (.fields live [])
  | field {live : Name → Prop} {n n' : Name} {visibility : Visibility} {m m' : Member}
      {fs fs' : List (Name × Field)} (name : w.name n n')
      (head : Akin κ w (.member live m) (.member live m'))
      (tail : Akin κ w (.fields live fs) (.fields live fs')) :
    Akin κ w (.fields live ((n, ⟨visibility, m⟩) :: fs)) (.fields live ((n', ⟨visibility, m'⟩) :: fs'))
  | literal {live : Name → Prop} {id : ObjectId} {s s' : Scope} {fs gs fs' : List (Name × Field)}
      {ms ms' : List Member} (scope : Akin κ w (.scope live s) (.scope live s'))
      (fields : Akin κ w (.fields live fs) (.fields live gs))
      (order : Reorders κ.reorders Prod.fst gs fs')
      (asserts : Akin κ w (.members live ms) (.members live ms')) :
    Akin κ w (.leaf ⟨id, s, fs, ms⟩) (.leaf ⟨id, s', fs', ms'⟩)
  | single {l l' : Leaf} (leaf : Akin κ w (.leaf l) (.leaf l')) :
    Akin κ w (.object (.leaf l)) (.object (.leaf l'))
  | join {id : ObjectId} {size : Nat} {hasAsserts : Bool} {l r l' r' : Object}
      (sized : size = addLeaves l.size r.size) (left : Akin κ w (.object l) (.object l'))
      (right : Akin κ w (.object r) (.object r')) :
    Akin κ w (.object (.join id size hasAsserts l r)) (.object (.join id size hasAsserts l' r'))

namespace Akin

variable {κ : Kinship} {u w : Bond} {x y : Item}

/-- What is akin stays akin if more stands for each other and more is live. -/
theorem mono (h : Akin κ u x y) (hle : u ≤ w) :
  Akin κ w x y
  := by
  induction h with
  | null => exact .null
  | bool b => exact .bool b
  | number x => exact .number x
  | string s => exact .string s
  | array _ ih => exact .array ih
  | function _ ih => exact .function ih
  | object _ ih => exact .object ih
  | closure _ params body outer ih =>
    exact .closure ih (Bond.names_mono hle params) (κ.mono body hle.1) outer
  | builtin b => exact .builtin b
  | ready _ ih => exact .ready ih
  | suspended _ ih => exact .suspended ih
  | shared alive => exact .shared (Bond.thunk_mono hle alive)
  | failed failure => exact .failed (failure.mono hle.1)
  | nil => exact .nil
  | cons _ _ ihhead ihtail => exact .cons ihhead ihtail
  | code context _ body ih => exact .code (context.mono hle.1) ih (κ.mono body hle.1)
  | call _ _ site ihfunction iharguments =>
    exact .call ihfunction iharguments (site.mono hle.1)
  | bound _ ih => exact .bound ih
  | slot alive => exact .slot (Bond.slot_mono hle alive)
  | unbound => exact .unbound
  | bind name _ _ ihhead ihtail => exact .bind (Bond.name_mono hle name) ihhead ihtail
  | hidden name dead _ ih => exact .hidden (Bond.name_mono hle name) dead ih
  | empty => exact .empty
  | layer _ _ outer ihbindings ihscope => exact .layer ihbindings ihscope outer
  | outside _ ih => exact .outside ih
  | inside _ _ ihscope ihself => exact .inside ihscope ihself
  | computed body extendsSuper => exact .computed (κ.mono body hle.1) extendsSuper
  | given _ ih => exact .given ih
  | unasserted => exact .unasserted
  | assert _ _ ihhead ihtail => exact .assert ihhead ihtail
  | fieldless => exact .fieldless
  | field name _ _ ihhead ihtail => exact .field (Bond.name_mono hle name) ihhead ihtail
  | literal _ _ order _ ihscope ihfields ihasserts =>
    exact .literal ihscope ihfields order ihasserts
  | single _ ih => exact .single ih
  | join sized _ _ ihleft ihright => exact .join sized ihleft ihright

theorem typeName_eq {v v' : Value} (h : Akin κ w (.value v) (.value v')) :
  v.typeName = v'.typeName
  := by
  cases h <;> rfl

/-! ### Lists and scopes -/

theorem deferreds_iff {xs ys : List Deferred} :
  Akin κ w (.deferreds xs) (.deferreds ys)
    ↔ List.Forall₂ (fun x y => Akin κ w (.deferred x) (.deferred y)) xs ys
  := by
  constructor
  · intro h
    induction xs generalizing ys with
    | nil => cases h; exact .nil
    | cons x xs ih =>
      cases h with
      | cons head tail => exact .cons head (ih tail)
  · intro h
    induction h with
    | nil => exact .nil
    | cons head tail ih => exact .cons head ih

theorem size_eq {xs ys : Array Deferred} (h : Akin κ w (.deferreds xs.toList) (.deferreds ys.toList)) :
  xs.size = ys.size
  := (deferreds_iff.mp h).length_eq

/-- In akin bindings the names stand for each other, and live names are bound to what is akin. -/
theorem bindings {live : Name → Prop} {bs bs' : List (Name × Binding)}
    (h : Akin κ w (.bindings live bs) (.bindings live bs')) :
  List.Forall₂ (fun b b' => w.name b.1 b'.1 ∧ (live b.1 → Akin κ w (.binding b.2) (.binding b'.2)))
    bs bs'
  := by
  induction bs generalizing bs' with
  | nil => cases h; exact .nil
  | cons b bs ih =>
    cases h with
    | bind name head tail => exact .cons ⟨name, fun _ => head⟩ (ih tail)
    | hidden name dead tail => exact .cons ⟨name, fun alive => absurd alive dead⟩ (ih tail)

/-- A live name is bound to what is akin. -/
theorem lookup_bindings {live : Name → Prop} {bs bs' : List (Name × Binding)} {n n' : Name}
    (name : w.name n n') (alive : live n)
    (h : List.Forall₂
      (fun b b' => w.name b.1 b'.1 ∧ (live b.1 → Akin κ w (.binding b.2) (.binding b'.2))) bs bs') :
  Option.Rel (fun b b' => Akin κ w (.binding b) (.binding b')) (bs.lookup n) (bs'.lookup n')
  := by
  induction h with
  | nil => exact .none
  | @cons b b' bs bs' head tail ih =>
    obtain ⟨m, b⟩ := b
    obtain ⟨m', b'⟩ := b'
    obtain ⟨hm, hb⟩ := head
    have heq := Bond.beq_eq name hm
    rw [List.lookup, List.lookup]
    cases h : n == m with
    | true =>
      rw [h] at heq
      rw [beq_iff_eq] at h
      subst h
      rw [← heq]
      exact .some (hb alive)
    | false =>
      rw [h] at heq
      rw [← heq]
      exact ih

/-- A live name is bound to what is akin in akin scopes. -/
theorem lookup {n n' : Name} (name : w.name n n') :
  ∀ {live : Name → Prop} {s s' : Scope}, live n → Akin κ w (.scope live s) (.scope live s') →
    Option.Rel (fun b b' => Akin κ w (.binding b) (.binding b')) (s.lookup n) (s'.lookup n')
  | _, .empty, _, _, h => by
    cases h
    exact .none
  | live, .layer bs s, _, alive, h => by
    cases h with
    | layer bindings scope outer =>
      have hlayer := lookup_bindings name alive (List.rel_reverse bindings.bindings)
      rw [Scope.lookup, Scope.lookup]
      obtain ⟨hb, hb'⟩ | ⟨b, b', hb, hb', h⟩ := optionRel_iff.mp hlayer
      · rw [hb, hb']
        apply lookup name _ scope
        apply (outer n alive).resolve_left
        intro hmem
        have hmem : n ∈ bs.reverse.map Prod.fst := by simpa using hmem
        have hsome := Scope.lookup_isSome hmem
        rw [hb] at hsome
        cases hsome
      · rw [hb, hb']
        exact .some h

/-- Bindings stay akin if less is live. -/
theorem restrict_bindings {live inner : Name → Prop} {bs bs' : List (Name × Binding)}
    (h : Akin κ w (.bindings live bs) (.bindings live bs')) (hle : ∀ n, inner n → live n) :
  Akin κ w (.bindings inner bs) (.bindings inner bs')
  := by
  induction bs generalizing bs' with
  | nil => cases h; exact .unbound
  | cons b bs ih =>
    cases h with
    | bind name head tail => exact .bind name head (ih tail)
    | hidden name dead tail => exact .hidden name (fun alive => dead (hle _ alive)) (ih tail)

/-- Scopes stay akin if less is live. -/
theorem restrict {live inner : Name → Prop} {s s' : Scope}
    (h : Akin κ w (.scope live s) (.scope live s')) (hle : ∀ n, inner n → live n) :
  Akin κ w (.scope inner s) (.scope inner s')
  := by
  cases h with
  | empty => exact .empty
  | layer bindings scope outer =>
    exact .layer (bindings.restrict_bindings hle) scope fun n alive => outer n (hle n alive)

/-- Scopes stay akin with a layer more, as long as what is live behind it was so before. -/
theorem extend {live inner : Name → Prop} {s s' : Scope}
    (h : Akin κ w (.scope live s) (.scope live s')) {bs bs' : List (Name × Binding)}
    (hbs : Akin κ w (.bindings inner bs) (.bindings inner bs'))
    (outer : ∀ n, inner n → n ∈ bs.map Prod.fst ∨ live n) :
  Akin κ w (.scope inner (s.extend bs)) (.scope inner (s'.extend bs'))
  := by
  cases hbs with
  | unbound =>
    simp only [List.map_nil, List.not_mem_nil, false_or] at outer
    exact h.restrict outer
  | bind name head tail => exact .layer (.bind name head tail) h outer
  | hidden name dead tail => exact .layer (.hidden name dead tail) h outer

/-- Scopes stay akin with arguments for parameters, if those for live parameters are akin. -/
theorem bindValues {live inner : Name → Prop} {s s' : Scope}
    (h : Akin κ w (.scope live s) (.scope live s')) {ps ps' : List Name} {ds ds' : List Deferred}
    (params : List.Forall₂ w.name ps ps')
    (arguments : Partly (fun d d' => Akin κ w (.deferred d) (.deferred d')) (ps.map inner) ds ds')
    (outer : ∀ n, inner n → n ∈ ps ∨ live n) :
  Akin κ w (.scope inner (s.bindValues (ps.zip ds))) (.scope inner (s'.bindValues (ps'.zip ds')))
  := by
  have bound : Akin κ w (.bindings inner ((ps.zip ds).map fun p => (p.1, Binding.value p.2)))
      (.bindings inner ((ps'.zip ds').map fun p => (p.1, Binding.value p.2))) ∧
      ((ps.zip ds).map fun p => (p.1, Binding.value p.2)).map Prod.fst = ps := by
    clear outer
    induction params generalizing ds ds' with
    | nil => exact ⟨.unbound, rfl⟩
    | @cons n n' ps ps' name _ ih =>
      rw [List.map_cons] at arguments
      cases arguments with
      | cons head tail =>
        obtain ⟨rest, names⟩ := ih tail
        refine ⟨?_, congrArg (n :: ·) names⟩
        by_cases alive : inner n
        · exact .bind name (.bound (head alive)) rest
        · exact .hidden name alive rest
  apply h.extend bound.1
  intro n alive
  rw [bound.2]
  exact outer n alive

/-- Scopes stay akin with slots for names, if those for live names are live. -/
theorem bindSlots {live inner : Name → Prop} {s s' : Scope}
    (h : Akin κ w (.scope live s) (.scope live s')) {ns ns' : List Name} {slots : List SlotId}
    (names : List.Forall₂ w.name ns ns') (length : slots.length = ns.length)
    (alive : ∀ b ∈ ns.zip slots, inner b.1 → w.slot b.2)
    (outer : ∀ n, inner n → n ∈ ns ∨ live n) :
  Akin κ w (.scope inner (s.bindSlots (ns.zip slots))) (.scope inner (s'.bindSlots (ns'.zip slots)))
  := by
  have bound : Akin κ w (.bindings inner ((ns.zip slots).map fun p => (p.1, Binding.slot p.2)))
      (.bindings inner ((ns'.zip slots).map fun p => (p.1, Binding.slot p.2))) ∧
      ((ns.zip slots).map fun p => (p.1, Binding.slot p.2)).map Prod.fst = ns := by
    clear outer
    induction names generalizing slots with
    | nil => exact ⟨.unbound, rfl⟩
    | @cons n n' ns ns' name _ ih =>
      obtain _ | ⟨slot, slots⟩ := slots
      · cases length
      · obtain ⟨rest, names⟩ := ih (Nat.succ.inj length) fun b hb =>
          alive b (List.mem_cons_of_mem _ hb)
        refine ⟨?_, congrArg (n :: ·) names⟩
        by_cases hn : inner n
        · exact .bind name (.slot (alive (n, slot) List.mem_cons_self hn)) rest
        · exact .hidden name hn rest
  apply h.extend bound.1
  intro n hn
  rw [bound.2]
  exact outer n hn

theorem env_iff {live : Name → Prop} {e e' : Env} :
  Akin κ w (.env live e) (.env live e')
    ↔ Akin κ w (.scope live e.scope) (.scope live e'.scope) ∧
      Option.Rel (fun o p => Akin κ w (.object o) (.object p)) e.self? e'.self? ∧
      e.superDepth = e'.superDepth
  := by
  constructor
  · intro h
    cases h with
    | outside scope => exact ⟨scope, .none, rfl⟩
    | inside scope self => exact ⟨scope, .some self, rfl⟩
  · rintro ⟨scope, self, depth⟩
    obtain ⟨s, o?, d⟩ := e
    obtain ⟨s', p?, d'⟩ := e'
    cases depth
    cases self with
    | none => exact .outside scope
    | some self => exact .inside scope self

theorem withScope {live inner : Name → Prop} {e e' : Env} (h : Akin κ w (.env live e) (.env live e'))
    {s s' : Scope} (hs : Akin κ w (.scope inner s) (.scope inner s')) :
  Akin κ w (.env inner (e.withScope s)) (.env inner (e'.withScope s'))
  := by
  rw [env_iff] at h ⊢
  exact ⟨hs, h.2⟩

/-! ### Objects -/

/-- Literals that are akin: their scopes are, and in them the members. -/
theorem leaf_iff {l l' : Leaf} :
  Akin κ w (.leaf l) (.leaf l')
    ↔ l.id = l'.id ∧ ∃ live gs, Akin κ w (.scope live l.scope) (.scope live l'.scope) ∧
      Akin κ w (.fields live l.fields) (.fields live gs) ∧ Reorders κ.reorders Prod.fst gs l'.fields ∧
      Akin κ w (.members live l.asserts) (.members live l'.asserts)
  := by
  constructor
  · intro h
    cases h with
    | literal scope fields order asserts => exact ⟨rfl, _, _, scope, fields, order, asserts⟩
  · rintro ⟨id, live, gs, scope, fields, order, asserts⟩
    obtain ⟨i, s, fs, ms⟩ := l
    obtain ⟨i', s', fs', ms'⟩ := l'
    cases id
    exact .literal scope fields order asserts

/-- Names that stand for each other are defined by fields that are akin. -/
theorem lookup_fields {live : Name → Prop} {fs fs' : List (Name × Field)}
    (h : Akin κ w (.fields live fs) (.fields live fs')) {n n' : Name} (name : w.name n n') :
  Option.Rel (fun f f' => f.visibility = f'.visibility ∧
      Akin κ w (.member live f.member) (.member live f'.member)) (fs.lookup n) (fs'.lookup n')
  := by
  induction fs generalizing fs' with
  | nil => cases h; exact .none
  | cons f fs ih =>
    cases h with
    | @field _ m m' visibility _ _ _ _ hm head tail =>
      have heq := Bond.beq_eq name hm
      rw [List.lookup, List.lookup]
      cases h : n == m with
      | true =>
        rw [h] at heq
        rw [← heq]
        exact .some ⟨rfl, head⟩
      | false =>
        rw [h] at heq
        rw [← heq]
        exact ih tail

theorem fields_iff {live : Name → Prop} {fs fs' : List (Name × Field)} :
  Akin κ w (.fields live fs) (.fields live fs')
    ↔ List.Forall₂ (fun f f' => w.name f.1 f'.1 ∧ f.2.visibility = f'.2.visibility ∧
      Akin κ w (.member live f.2.member) (.member live f'.2.member)) fs fs'
  := by
  constructor
  · intro h
    induction fs generalizing fs' with
    | nil => cases h; exact .nil
    | cons f fs ih =>
      cases h with
      | field name head tail => exact .cons ⟨name, rfl, head⟩ (ih tail)
  · intro h
    induction h with
    | nil => exact .fieldless
    | @cons f f' fs fs' head tail ih =>
      obtain ⟨n, visibility, m⟩ := f
      obtain ⟨n', visibility', m'⟩ := f'
      obtain ⟨name, hvisibility, member⟩ := head
      cases hvisibility
      exact .field name member ih

/-- A name is that of a field if the name that stands for it is. -/
theorem any_fields {live : Name → Prop} {fs fs' : List (Name × Field)}
    (h : Akin κ w (.fields live fs) (.fields live fs')) {n n' : Name} (name : w.name n n') :
  (fs.any fun f => f.1 == n) = fs'.any fun f => f.1 == n'
  := by
  rw [fields_iff] at h
  induction h with
  | nil => rfl
  | cons head _ ih => rw [List.any_cons, List.any_cons, Bond.beq_eq head.1 name, ih]

theorem isEmpty_members {live : Name → Prop} {ms ms' : List Member}
    (h : Akin κ w (.members live ms) (.members live ms')) :
  ms.isEmpty = ms'.isEmpty
  := by
  cases h <;> rfl

section

variable {o p : Object} (h : Akin κ w (.object o) (.object p))

include h

theorem object_id :
  o.id = p.id
  := by
  cases h with
  | single leaf => exact (leaf_iff.mp leaf).1
  | join => rfl

theorem object_size :
  o.size = p.size
  := by
  cases h <;> rfl

theorem object_hasAsserts :
  o.hasAsserts = p.hasAsserts
  := by
  cases h with
  | single leaf =>
    obtain ⟨-, live, -, -, -, -, asserts⟩ := leaf_iff.mp leaf
    rw [Object.hasAsserts, Object.hasAsserts, asserts.isEmpty_members]
  | join => rfl

end

theorem combine (id : ObjectId) {l r l' r' : Object} (hl : Akin κ w (.object l) (.object l'))
    (hr : Akin κ w (.object r) (.object r')) :
  Akin κ w (.object (.combine id l r)) (.object (.combine id l' r'))
  := by
  rw [Object.combine, Object.combine, ← hl.object_size, ← hr.object_size, ← hl.object_hasAsserts,
    ← hr.object_hasAsserts]
  exact .join rfl hl hr

/-- Akin objects have akin literals at the same depths. -/
theorem leavesFrom : ∀ {o p : Object}, Akin κ w (.object o) (.object p) → ∀ skipped,
  List.Forall₂ (fun x y => Akin κ w (.leaf x.1) (.leaf y.1) ∧ x.2 = y.2) (o.leavesFrom skipped)
    (p.leavesFrom skipped)
  | .leaf l, _, h, skipped => by
    cases h with
    | single leaf => exact .cons ⟨leaf, rfl⟩ .nil
  | .join _ _ _ left right, _, h, skipped => by
    cases h with
    | join sized hleft hright =>
      rw [Object.leavesFrom, Object.leavesFrom, ← hright.object_size]
      exact List.rel_append (leavesFrom hright skipped) (leavesFrom hleft _)

/-- Names that stand for each other are found in akin literals at the same depth. -/
theorem findFrom {n n' : Name} (name : w.name n n') :
  ∀ {o p : Object}, Akin κ w (.object o) (.object p) → ∀ minDepth skipped,
    Option.Rel (fun x y => Akin κ w (.leaf x.1) (.leaf y.1) ∧ x.2 = y.2)
      (o.findFrom n minDepth skipped) (p.findFrom n' minDepth skipped)
  | .leaf l, _, h, minDepth, skipped => by
    cases h with
    | single leaf =>
      obtain ⟨-, live, gs, -, fields, order, -⟩ := leaf_iff.mp leaf
      have hfield := lookup_fields fields name
      rw [Object.findFrom, Object.findFrom, Leaf.field?, Leaf.field?, ← order.lookup_eq]
      obtain ⟨hl, hl'⟩ | ⟨f, f', hl, hl', -⟩ := optionRel_iff.mp hfield
      · rw [hl, hl']
        simp
      · rw [hl, hl', Option.isSome_some, Option.isSome_some]
        split
        · exact .some ⟨leaf, rfl⟩
        · exact .none
  | .join _ _ _ left right, _, h, minDepth, skipped => by
    cases h with
    | join sized hleft hright =>
      rw [Object.findFrom_join, Object.findFrom_join, ← hright.object_size]
      apply optionRel_or
      · split
        · exact findFrom name hright minDepth skipped
        · exact .none
      · exact findFrom name hleft _ _

theorem find? {n n' : Name} (name : w.name n n') {o p : Object}
    (h : Akin κ w (.object o) (.object p)) (minDepth : Nat) :
  Option.Rel (fun x y => Akin κ w (.leaf x.1) (.leaf y.1) ∧ x.2 = y.2) (o.find? minDepth n)
    (p.find? minDepth n')
  := findFrom name h minDepth 0

theorem isSome_find? {n n' : Name} (name : w.name n n') {o p : Object}
    (h : Akin κ w (.object o) (.object p)) (minDepth : Nat) :
  (o.find? minDepth n).isSome = (p.find? minDepth n').isSome
  := by
  obtain ⟨ho, hp⟩ | ⟨_, _, ho, hp, -⟩ := optionRel_iff.mp (h.find? name minDepth) <;> rw [ho, hp]
  rfl

/-- The members of lists that are akin. -/
theorem members_iff {live : Name → Prop} {ms ms' : List Member} :
  Akin κ w (.members live ms) (.members live ms')
    ↔ List.Forall₂ (fun m m' => Akin κ w (.member live m) (.member live m')) ms ms'
  := by
  constructor
  · intro h
    induction ms generalizing ms' with
    | nil => cases h; exact .nil
    | cons m ms ih =>
      cases h with
      | assert head tail => exact .cons head (ih tail)
  · intro h
    induction h with
    | nil => exact .unasserted
    | cons head tail ih => exact .assert head ih

/-- Akin objects have akin assertions in the same order. -/
theorem assertions {o p : Object} (h : Akin κ w (.object o) (.object p)) :
  List.Forall₂ (fun x y => x.2.1 = y.2.1 ∧ ∃ live,
      Akin κ w (.scope live x.1.scope) (.scope live y.1.scope) ∧
        Akin κ w (.member live x.2.2) (.member live y.2.2)) o.assertions p.assertions
  := by
  have hleaves := h.leavesFrom 0
  rw [Object.assertions, Object.assertions, Object.leaves, Object.leaves]
  generalize o.leavesFrom 0 = xs, p.leavesFrom 0 = ys at hleaves
  induction hleaves with
  | nil => exact .nil
  | @cons x y xs ys head tail ih =>
    obtain ⟨l, d⟩ := x
    obtain ⟨l', d'⟩ := y
    obtain ⟨leaf, depth⟩ := head
    obtain ⟨-, live, -, scope, -, -, asserts⟩ := leaf_iff.mp leaf
    rw [List.flatMap_cons, List.flatMap_cons]
    refine List.rel_append ?_ ih
    rw [List.forall₂_map_left_iff, List.forall₂_map_right_iff]
    exact (members_iff.mp asserts).imp fun m m' hm => ⟨depth, live, scope, hm⟩

end Akin

end Jsonnet
