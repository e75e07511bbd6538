import Jsonnet.Proofs.Origins
import Jsonnet.Proofs.Worlds

/-!
# Genuine data

Objects are made one after the other, and the number of an object tells which one it is.
Data are genuine with respect to the objects made so far if every object in them is the one
that was made under its number, and if every element of an array in them is computed at most
once. Whatever evaluation makes of genuine data is genuine.
-/

namespace Jsonnet

/-- Whether a deferred value is computed at most once. -/
def Deferred.Memoised : Deferred → Prop
  | .ready _ | .shared _ => True
  | .suspended _ | .failed _ => False

/-- Whether an object is the one that was made under its number. -/
def Object.MadeIn (made : List Object) (o : Object) : Prop := made[o.id.index]? = some o

/-- The data in which every object is the one that was made under its number, and every
element of an array is computed at most once. -/
inductive Genuine (made : List Object) : Datum → Prop where
  | null : Genuine made (.value .null)
  | bool (b : Bool) : Genuine made (.value (.bool b))
  | number (x : Number) : Genuine made (.value (.number x))
  | string (s : String) : Genuine made (.value (.string s))
  | array {elements : Array Deferred} (memoised : ∀ d ∈ elements.toList, d.Memoised)
      (inside : ∀ d ∈ elements.toList, Genuine made (.deferred d)) :
    Genuine made (.value (.array elements))
  | function {f : Function} (function : Genuine made (.function f)) :
    Genuine made (.value (.function f))
  | object {o : Object} (object : o.MadeIn made) : Genuine made (.value (.object o))
  | closure {e : Env} {params : List Name} {body : Code} (env : Genuine made (.env e)) :
    Genuine made (.function (.closure e params body))
  | builtin (b : Builtin) : Genuine made (.function (.builtin b))
  | ready {v : Value} (value : Genuine made (.value v)) : Genuine made (.deferred (.ready v))
  | suspended {s : Suspension} (suspension : Genuine made (.suspension s)) :
    Genuine made (.deferred (.suspended s))
  | shared (t : ThunkId) : Genuine made (.deferred (.shared t))
  | failed (f : Failure) : Genuine made (.deferred (.failed f))
  | code {context : FrameContext} {e : Env} {body : Code} (env : Genuine made (.env e)) :
    Genuine made (.suspension (.code context e body))
  | call {f : Function} {ds : List Deferred} {site : Location}
      (function : Genuine made (.function f))
      (arguments : ∀ d ∈ ds, Genuine made (.deferred d)) :
    Genuine made (.suspension (.call f ds site))
  | bound {d : Deferred} (deferred : Genuine made (.deferred d)) :
    Genuine made (.binding (.value d))
  | slot (i : SlotId) : Genuine made (.binding (.slot i))
  | empty : Genuine made (.scope .empty)
  | layer {bs : List (Name × Binding)} {s : Scope}
      (bindings : ∀ b ∈ bs, Genuine made (.binding b.2)) (outer : Genuine made (.scope s)) :
    Genuine made (.scope (.layer bs s))
  | env {e : Env} (scope : Genuine made (.scope e.scope))
      (self : ∀ o, e.self? = some o → o.MadeIn made) :
    Genuine made (.env e)

section

variable {made more : List Object}

theorem Object.MadeIn.mono {o : Object} (h : o.MadeIn made) (hle : made <+: more) :
  o.MadeIn more
  := Origins.getElem?_of_prefix hle h

/-- Objects that are made under the same number are the same. -/
theorem Object.MadeIn.unique {o p : Object} (h : o.MadeIn made) (h' : p.MadeIn made)
    (hid : o.id = p.id) :
  o = p
  := by
  rw [MadeIn, hid] at h
  exact Option.some.inj (h.symm.trans h')

/-! ### Objects -/

/-- A genuine member of a literal. -/
def Member.IsGenuine (made : List Object) : Member → Prop
  | .code _ _ => True
  | .ready value => Genuine made (.value value)

/-- A genuine literal. -/
structure Leaf.IsGenuine (made : List Object) (l : Leaf) : Prop where
  scope : Genuine made (.scope l.scope)
  field : ∀ field ∈ l.fields, field.2.member.IsGenuine made
  assertion : ∀ member ∈ l.asserts, member.IsGenuine made

/-- An object of genuine literals. -/
inductive Object.IsGenuine (made : List Object) : Object → Prop where
  | leaf {l : Leaf} (leaf : l.IsGenuine made) : IsGenuine made (.leaf l)
  | combine (id : ObjectId) {l r : Object} (left : l.IsGenuine made) (right : r.IsGenuine made) :
    IsGenuine made (.combine id l r)

end

/-! ### States -/

/-- A genuine cell. -/
def Cell.IsGenuine (made : List Object) : Cell → Prop
  | .pending suspension => Genuine made (.suspension suspension)
  | .ready value => Genuine made (.value value)

/-- A state that has made some objects, each under its place among them, and holds genuine
data only. -/
structure State.IsGenuine (session : Session) (made : List Object) (a : State) : Prop where
  count : made.length = a.checks.size
  numbered : ∀ {i : Nat} {o : Object}, made[i]? = some o → o.id.index = i ∧ o.IsGenuine made
  library : session.library.MadeIn made
  thunk : ∀ {i : Nat} {cell : Cell}, a.thunks[i]? = some cell → cell.IsGenuine made
  slot : ∀ {i : Nat} {d : Deferred}, a.slots.entries[i]? = some d → Genuine made (.deferred d)
  field : ∀ {key : FieldKey} {v : Value}, a.fields[key]? = some v → Genuine made (.value v)
  imported : ∀ {directory path : String} {d : Deferred},
    a.imports.code? directory path = some d → Genuine made (.deferred d)
  external : ∀ {name : Name} {d : Deferred}, a.externals[name]? = some d →
    Genuine made (.deferred d)

namespace State.IsGenuine

variable {session : Session} {made more : List Object} {a b : State}

/-- An object that is made has a state of its assertions. -/
theorem index_lt (h : a.IsGenuine session made) {o : Object} (ho : o.MadeIn made) :
  o.id.index < a.checks.size
  := by
  rw [← h.count]
  exact (List.getElem?_eq_some_iff.mp ho).choose

/-- An object that is made consists of genuine literals. -/
theorem object (h : a.IsGenuine session made) {o : Object} (ho : o.MadeIn made) :
  o.IsGenuine made
  := (h.numbered ho).2

/-- The stack, the interner and the counters do not matter, and neither does how far checks
have come. -/
theorem congr (h : a.IsGenuine session made) (checks : b.checks.size = a.checks.size)
    (thunks : b.thunks = a.thunks) (slots : b.slots = a.slots) (fields : b.fields = a.fields)
    (imports : b.imports = a.imports) (externals : b.externals = a.externals) :
  b.IsGenuine session made
  where
  count := h.count.trans checks.symm
  numbered := h.numbered
  library := h.library
  thunk := by rw [thunks]; exact h.thunk
  slot := by rw [slots]; exact h.slot
  field := by rw [fields]; exact h.field
  imported := by rw [imports]; exact h.imported
  external := by rw [externals]; exact h.external

end State.IsGenuine

end Jsonnet
