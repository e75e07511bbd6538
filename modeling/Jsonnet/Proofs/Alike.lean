import Mathlib.Data.List.Forall2
import Mathlib.Order.Basic
import Mathlib.Tactic.Common
import Jsonnet.Eval.Task
import Jsonnet.Proofs.Codes
import Jsonnet.Proofs.Scoping

/-!
# Alike data

Two runs number their thunks, slots and objects differently. A pairing says which of one
run stand for which of the other; data are alike if they differ only by what is paired,
and in the places where something was written. Names are the same on both sides.

An object can be a result before its assertions are checked, but it becomes `self` only
afterwards. Data that a store holds refer to objects as `self` only.

How much else has to be the same in both runs, and what a code may refer to, is a matter
of the terms on which the runs are compared.
-/

namespace Jsonnet

/-! ### Terms -/

/-- The terms on which two runs are compared. -/
structure Terms where
  /-- Whether frames, locations and failures are the same in both runs. -/
  exact : Prop
  /-- Whether every variable is bound and no internal failure may come up. -/
  closed : Prop
  /-- Whether `self` and `super` stand in the members of objects only. -/
  housed : Prop
  /-- Whether every name is one that the interner has given out. -/
  known : Prop

namespace Terms

/-- The terms that leave everything open. -/
def loose : Terms := ⟨False, False, False, False⟩

variable (τ : Terms)

/-- Whether two things may stand for each other: they have to be the same on exact
terms. -/
def Agrees {α : Type} (x y : α) : Prop := τ.exact → x = y

/-- Whether a failure may come up. -/
def Allows : Failure → Prop
  | .internal _ => ¬ τ.closed
  | .runtime .selfOutsideObject _ | .runtime .superOutsideObject _ => ¬ τ.housed
  | _ => True

/-- Failures that may stand for each other. -/
structure Fails (f f' : Failure) : Prop where
  kind : f.kind = f'.kind
  same : τ.Agrees f f'
  allowed : τ.Allows f

variable {τ}

theorem agrees_rfl {α : Type} {x : α} :
  τ.Agrees x x
  := fun _ => rfl

theorem agrees_loose {α : Type} (x y : α) :
  loose.Agrees x y
  := False.elim

theorem Fails.refl {f : Failure} (h : τ.Allows f) :
  τ.Fails f f
  := ⟨rfl, agrees_rfl, h⟩

/-- Loose terms allow every failure. -/
theorem Fails.ofKind {f f' : Failure} (h : f.kind = f'.kind) :
  loose.Fails f f'
  := by
  refine ⟨h, agrees_loose f f', ?_⟩
  rw [Allows.eq_def]
  split <;> first | exact False.elim | trivial

end Terms

/-- A code that refers to what is there only: to names with a property, and to an object
only if there is one or an object literal of its own stands around. -/
structure Code.Fits (τ : Terms) (code : Code) (P : Name → Prop) (inObject : Prop) : Prop where
  bound : τ.closed → code.Bound P
  housed : τ.housed → ¬ inObject → code.Housed

/-- A code that refers only to what is there in an environment. -/
def Code.FitsIn (τ : Terms) (code : Code) (env : Env) : Prop :=
  code.Fits τ env.scope.Binds env.self?.isSome

namespace Code.Fits

variable {τ : Terms} {code : Code} {P Q : Name → Prop} {inObject inObject' : Prop}

theorem loose (code : Code) (P : Name → Prop) (inObject : Prop) :
  code.Fits .loose P inObject
  := ⟨False.elim, False.elim⟩

theorem mono (h : code.Fits τ P inObject) (hPQ : ∀ name, P name → Q name)
    (hobject : inObject → inObject') :
  code.Fits τ Q inObject'
  where
  bound hclosed := (h.bound hclosed).mono hPQ
  housed hhoused houtside := h.housed hhoused fun hinside => houtside (hobject hinside)

/-- What stands right below may refer to some names more, and to the object if it is a
member of one. -/
theorem below (h : code.Fits τ P inObject) {next : Spot}
    (hnext : next ∈ code.arena.below code.root) :
  (code.sibling next.id).Fits τ (fun name => name ∈ next.names ∨ P name)
    (inObject ∨ next.inMember = true)
  where
  bound hclosed := (h.bound hclosed).below hnext
  housed hhoused houtside := by
    rw [not_or, Bool.not_eq_true] at houtside
    exact (h.housed hhoused houtside.1).below hnext houtside.2

end Code.Fits

namespace Code.FitsIn

variable {τ : Terms} {code : Code} {env : Env} (h : code.FitsIn τ env)

include h

/-- A code that refers to the object where there is none breaks the rule on that. -/
theorem not_housed (hself : env.self? = none)
    (hcode : code.node.usesSelf = true) :
  ¬ τ.housed
  := by
  intro hhoused
  have := (h.housed hhoused (by simp [hself])).root
  rw [hcode] at this
  cases this

/-- An expression right below that sees the same names and the same object. -/
theorem child {id : NodeId}
    (hid : ⟨[], false, id⟩ ∈ code.arena.below code.root) :
  (code.sibling id).FitsIn τ env
  := by
  apply (Fits.below h hid).mono
  · simp
  · simp

end Code.FitsIn

/-! ### Pairings -/

/-- What stands for what, in two runs that are compared on some terms. -/
structure Pairing (τ : Terms) where
  /-- The names that both runs know. -/
  name : Name → Prop
  thunk : ThunkId → ThunkId → Prop
  slot : SlotId → SlotId → Prop
  object : Object → Object → Prop
  /-- The objects that may be `self`. -/
  self : Object → Object → Prop

namespace Pairing

variable {τ : Terms}

/-- A pairing extends another one if it pairs what the other pairs. -/
instance : LE (Pairing τ) where
  le u w :=
    (∀ name, u.name name → w.name name) ∧
    (∀ t t', u.thunk t t' → w.thunk t t') ∧
    (∀ s s', u.slot s s' → w.slot s s') ∧
    (∀ o o', u.object o o' → w.object o o') ∧
    ∀ o o', u.self o o' → w.self o o'

instance : Preorder (Pairing τ) where
  le_refl _ := ⟨fun _ h => h, fun _ _ h => h, fun _ _ h => h, fun _ _ h => h, fun _ _ h => h⟩
  le_trans _ _ _ := by
    rintro ⟨hname, hthunk, hslot, hobject, hself⟩ ⟨hname', hthunk', hslot', hobject', hself'⟩
    exact ⟨fun n h => hname' n (hname n h), fun t t' h => hthunk' t t' (hthunk t t' h),
      fun s s' h => hslot' s s' (hslot s s' h), fun o o' h => hobject' o o' (hobject o o' h),
      fun o o' h => hself' o o' (hself o o' h)⟩

section

variable {u w : Pairing τ} (h : u ≤ w)

include h

theorem name_mono {name : Name} (hname : u.name name) :
  w.name name
  := h.1 name hname

theorem thunk_mono {t t' : ThunkId} (hthunk : u.thunk t t') :
  w.thunk t t'
  := h.2.1 t t' hthunk

theorem slot_mono {s s' : SlotId} (hslot : u.slot s s') :
  w.slot s s'
  := h.2.2.1 s s' hslot

theorem object_mono {o o' : Object} (hobject : u.object o o') :
  w.object o o'
  := h.2.2.2.1 o o' hobject

theorem self_mono {o o' : Object} (hself : u.self o o') :
  w.self o o'
  := h.2.2.2.2 o o' hself

end

/-- The pairing of the second run with the first. -/
def inverse (w : Pairing τ) : Pairing τ where
  name := w.name
  thunk t t' := w.thunk t' t
  slot s s' := w.slot s' s
  object o o' := w.object o' o
  self o o' := w.self o' o

/-- The pairing through a run in the middle. -/
def comp (u w : Pairing τ) : Pairing τ where
  name n := u.name n ∧ w.name n
  thunk t t'' := ∃ t', u.thunk t t' ∧ w.thunk t' t''
  slot s s'' := ∃ s', u.slot s s' ∧ w.slot s' s''
  object o o'' := ∃ o', u.object o o' ∧ w.object o' o''
  self o o'' := ∃ o', u.self o o' ∧ w.self o' o''

/-- The pairing of everything that either pairing pairs. -/
def join (u w : Pairing τ) : Pairing τ where
  name n := u.name n ∨ w.name n
  thunk t t' := u.thunk t t' ∨ w.thunk t t'
  slot s s' := u.slot s s' ∨ w.slot s s'
  object o o' := u.object o o' ∨ w.object o o'
  self o o' := u.self o o' ∨ w.self o o'

/-- The pairing of nothing. -/
def nothing (τ : Terms) : Pairing τ where
  name _ := False
  thunk _ _ := False
  slot _ _ := False
  object _ _ := False
  self _ _ := False

theorem le_join_left (u w : Pairing τ) :
  u ≤ u.join w
  := ⟨fun _ => .inl, fun _ _ => .inl, fun _ _ => .inl, fun _ _ => .inl, fun _ _ => .inl⟩

theorem le_join_right (u w : Pairing τ) :
  w ≤ u.join w
  := ⟨fun _ => .inr, fun _ _ => .inr, fun _ _ => .inr, fun _ _ => .inr, fun _ _ => .inr⟩

/-- The pairing in which only objects that may be `self` are paired. -/
def selves (w : Pairing τ) : Pairing τ := { w with object := w.self }

theorem selves_mono {u w : Pairing τ} (h : u ≤ w) :
  u.selves ≤ w.selves
  := ⟨h.1, h.2.1, h.2.2.1, h.2.2.2.2, h.2.2.2.2⟩

end Pairing

/-! ### Data -/

/-- The pieces of data that values are made of. -/
inductive Datum where
  | value (value : Value)
  | function (function : Function)
  | deferred (deferred : Deferred)
  | deferreds (deferreds : List Deferred)
  | suspension (suspension : Suspension)
  | binding (binding : Binding)
  | bindings (bindings : List (Name × Binding))
  | scope (scope : Scope)
  | env (env : Env)

/-- The data that a pairing makes alike. -/
inductive Alike {τ : Terms} (w : Pairing τ) : Datum → Datum → Prop where
  | null : Alike w (.value .null) (.value .null)
  | bool (b : Bool) : Alike w (.value (.bool b)) (.value (.bool b))
  | number (x : Number) : Alike w (.value (.number x)) (.value (.number x))
  | string (s : String) : Alike w (.value (.string s)) (.value (.string s))
  | array {xs ys : Array Deferred} (elements : Alike w (.deferreds xs.toList) (.deferreds ys.toList)) :
    Alike w (.value (.array xs)) (.value (.array ys))
  | function {f g : Function} (function : Alike w (.function f) (.function g)) :
    Alike w (.value (.function f)) (.value (.function g))
  | object {o p : Object} (self : w.self o p) : Alike w (.value (.object o)) (.value (.object p))
  | closure {e e' : Env} {params : List Name} {body : Code} (env : Alike w (.env e) (.env e'))
      (params_named : ∀ name ∈ params, w.name name) (body_named : body.Named w.name)
      (fits : body.Fits τ (fun name => name ∈ params ∨ e.scope.Binds name) e.self?.isSome) :
    Alike w (.function (.closure e params body)) (.function (.closure e' params body))
  | builtin (b : Builtin) : Alike w (.function (.builtin b)) (.function (.builtin b))
  | ready {v v' : Value} (value : Alike w (.value v) (.value v')) :
    Alike w (.deferred (.ready v)) (.deferred (.ready v'))
  | suspended {s s' : Suspension} (suspension : Alike w (.suspension s) (.suspension s')) :
    Alike w (.deferred (.suspended s)) (.deferred (.suspended s'))
  | shared {t t' : ThunkId} (thunk : w.thunk t t') :
    Alike w (.deferred (.shared t)) (.deferred (.shared t'))
  | failed {f f' : Failure} (fails : τ.Fails f f') :
    Alike w (.deferred (.failed f)) (.deferred (.failed f'))
  | nil : Alike w (.deferreds []) (.deferreds [])
  | cons {d d' : Deferred} {ds ds' : List Deferred} (head : Alike w (.deferred d) (.deferred d'))
      (tail : Alike w (.deferreds ds) (.deferreds ds')) :
    Alike w (.deferreds (d :: ds)) (.deferreds (d' :: ds'))
  | code {c c' : FrameContext} {e e' : Env} {body : Code} (context : τ.Agrees c c')
      (env : Alike w (.env e) (.env e')) (named : body.Named w.name) (fits : body.FitsIn τ e) :
    Alike w (.suspension (.code c e body)) (.suspension (.code c' e' body))
  | call {f g : Function} {ds ds' : List Deferred} {site site' : Location}
      (same_site : τ.Agrees site site') (function : Alike w (.function f) (.function g))
      (arguments : Alike w (.deferreds ds) (.deferreds ds')) :
    Alike w (.suspension (.call f ds site)) (.suspension (.call g ds' site'))
  | bound {d d' : Deferred} (deferred : Alike w (.deferred d) (.deferred d')) :
    Alike w (.binding (.value d)) (.binding (.value d'))
  | slot {s s' : SlotId} (slot : w.slot s s') : Alike w (.binding (.slot s)) (.binding (.slot s'))
  | unbound : Alike w (.bindings []) (.bindings [])
  | bind {name : Name} {b b' : Binding} {bs bs' : List (Name × Binding)}
      (head : Alike w (.binding b) (.binding b'))
      (tail : Alike w (.bindings bs) (.bindings bs')) :
    Alike w (.bindings ((name, b) :: bs)) (.bindings ((name, b') :: bs'))
  | empty : Alike w (.scope .empty) (.scope .empty)
  | layer {bs bs' : List (Name × Binding)} {s s' : Scope}
      (bindings : Alike w (.bindings bs) (.bindings bs')) (outer : Alike w (.scope s) (.scope s')) :
    Alike w (.scope (.layer bs s)) (.scope (.layer bs' s'))
  | outside {s s' : Scope} {depth : Nat} (scope : Alike w (.scope s) (.scope s')) :
    Alike w (.env ⟨s, none, depth⟩) (.env ⟨s', none, depth⟩)
  | inside {s s' : Scope} {o p : Object} {depth : Nat} (scope : Alike w (.scope s) (.scope s'))
      (self : w.self o p) :
    Alike w (.env ⟨s, some o, depth⟩) (.env ⟨s', some p, depth⟩)

namespace Alike

variable {τ : Terms} {u w : Pairing τ} {x y z : Datum}

/-- What is alike stays alike if more is paired, other than objects that may not be
`self`. -/
theorem of_selves (h : Alike u x y) (hle : u.selves ≤ w.selves) :
  Alike w x y
  := by
  induction h with
  | null => exact .null
  | bool b => exact .bool b
  | number n => exact .number n
  | string s => exact .string s
  | array elements ih => exact .array ih
  | function function ih => exact .function ih
  | object self => exact .object (Pairing.self_mono hle self)
  | closure env params_named body_named fits ih =>
    exact .closure ih (fun name h => Pairing.name_mono hle (params_named name h))
      (body_named.mono fun _ => Pairing.name_mono hle) fits
  | builtin b => exact .builtin b
  | ready value ih => exact .ready ih
  | suspended suspension ih => exact .suspended ih
  | shared thunk => exact .shared (Pairing.thunk_mono hle thunk)
  | failed fails => exact .failed fails
  | nil => exact .nil
  | cons head tail ihhead ihtail => exact .cons ihhead ihtail
  | code context env named fits ih =>
    exact .code context ih (named.mono fun _ => Pairing.name_mono hle) fits
  | call same_site function arguments ihfunction iharguments =>
    exact .call same_site ihfunction iharguments
  | bound deferred ih => exact .bound ih
  | slot slot => exact .slot (Pairing.slot_mono hle slot)
  | unbound => exact .unbound
  | bind head tail ihhead ihtail => exact .bind ihhead ihtail
  | empty => exact .empty
  | layer bindings outer ihbindings ihouter => exact .layer ihbindings ihouter
  | outside scope ih => exact .outside ih
  | inside scope self ih => exact .inside ih (Pairing.self_mono hle self)

theorem mono (h : Alike u x y) (hle : u ≤ w) :
  Alike w x y
  := h.of_selves (Pairing.selves_mono hle)

section

variable {u w : Pairing .loose}

/-- What is alike is alike the other way round. -/
theorem symm (h : Alike w x y) :
  Alike w.inverse y x
  := by
  induction h with
  | null => exact .null
  | bool b => exact .bool b
  | number n => exact .number n
  | string s => exact .string s
  | array elements ih => exact .array ih
  | function function ih => exact .function ih
  | object self => exact .object self
  | closure env params_named body_named fits ih =>
    exact .closure ih params_named body_named (.loose _ _ _)
  | builtin b => exact .builtin b
  | ready value ih => exact .ready ih
  | suspended suspension ih => exact .suspended ih
  | shared thunk => exact .shared thunk
  | failed fails => exact .failed (.ofKind fails.kind.symm)
  | nil => exact .nil
  | cons head tail ihhead ihtail => exact .cons ihhead ihtail
  | code context env named fits ih =>
    exact .code (Terms.agrees_loose _ _) ih named (.loose _ _ _)
  | call same_site function arguments ihfunction iharguments =>
    exact .call (Terms.agrees_loose _ _) ihfunction iharguments
  | bound deferred ih => exact .bound ih
  | slot slot => exact .slot slot
  | unbound => exact .unbound
  | bind head tail ihhead ihtail => exact .bind ihhead ihtail
  | empty => exact .empty
  | layer bindings outer ihbindings ihouter => exact .layer ihbindings ihouter
  | outside scope ih => exact .outside ih
  | inside scope self ih => exact .inside ih self

/-- What is alike through a run in the middle is alike. -/
theorem trans (hxy : Alike u x y) (hyz : Alike w y z) :
  Alike (u.comp w) x z
  := by
  induction hxy generalizing z with
  | null => cases hyz; exact .null
  | bool b => cases hyz; exact .bool b
  | number n => cases hyz; exact .number n
  | string s => cases hyz; exact .string s
  | array elements ih =>
    cases hyz with
    | array elements' => exact .array (ih elements')
  | function function ih =>
    cases hyz with
    | function function' => exact .function (ih function')
  | object self =>
    cases hyz with
    | object self' => exact .object ⟨_, self, self'⟩
  | closure env params_named body_named fits ih =>
    cases hyz with
    | closure env' params_named' body_named' fits' =>
      exact .closure (ih env') (fun name h => ⟨params_named name h, params_named' name h⟩)
        (body_named.and body_named') (.loose _ _ _)
  | builtin b => cases hyz; exact .builtin b
  | ready value ih =>
    cases hyz with
    | ready value' => exact .ready (ih value')
  | suspended suspension ih =>
    cases hyz with
    | suspended suspension' => exact .suspended (ih suspension')
  | shared thunk =>
    cases hyz with
    | shared thunk' => exact .shared ⟨_, thunk, thunk'⟩
  | failed fails =>
    cases hyz with
    | failed fails' => exact .failed (.ofKind (fails.kind.trans fails'.kind))
  | nil => cases hyz; exact .nil
  | cons head tail ihhead ihtail =>
    cases hyz with
    | cons head' tail' => exact .cons (ihhead head') (ihtail tail')
  | code context env named fits ih =>
    cases hyz with
    | code context' env' named' fits' =>
      exact .code (Terms.agrees_loose _ _) (ih env') (named.and named') (.loose _ _ _)
  | call same_site function arguments ihfunction iharguments =>
    cases hyz with
    | call same_site' function' arguments' =>
      exact .call (Terms.agrees_loose _ _) (ihfunction function') (iharguments arguments')
  | bound deferred ih =>
    cases hyz with
    | bound deferred' => exact .bound (ih deferred')
  | slot slot =>
    cases hyz with
    | slot slot' => exact .slot ⟨_, slot, slot'⟩
  | unbound => cases hyz; exact .unbound
  | bind head tail ihhead ihtail =>
    cases hyz with
    | bind head' tail' => exact .bind (ihhead head') (ihtail tail')
  | empty => cases hyz; exact .empty
  | layer bindings outer ihbindings ihouter =>
    cases hyz with
    | layer bindings' outer' => exact .layer (ihbindings bindings') (ihouter outer')
  | outside scope ih =>
    cases hyz with
    | outside scope' => exact .outside (ih scope')
  | inside scope self ih =>
    cases hyz with
    | inside scope' self' => exact .inside (ih scope') ⟨_, self, self'⟩

end

end Alike

end Jsonnet
