import Mathlib
import Jsonnet.Eval.Field

/-!
# Scopes of codes

Which names are bound where in a code, and where `self` and `super` may stand. A path
leads from the root of a code to an expression below it, past the names that are bound on
the way and into the members of object literals. A name is bound in the expressions below
the `local` or the function that binds it, so all that matters is what stands on the path.
-/

namespace Jsonnet

/-- A place in a code: the names that are bound between the root and an expression, and
whether a member of an object literal stands in between. -/
structure Spot where
  names : List Name
  inMember : Bool
  id : NodeId

namespace Arena

/-- The expressions right below an expression, as places seen from it. The names of an
object's fields are no members of it. -/
def below (arena : Arena) (id : NodeId) : List Spot :=
  match arena.node id with
  | .null | .bool _ | .number _ | .string _ | .var _ | .selfRef | .importCode _ | .importText _ =>
    []
  | .locals binds body =>
    let binds := arena.readBinds binds
    (body :: binds.map Bind.body).map (⟨binds.map Bind.name, false, ·⟩)
  | .function params body => [⟨arena.readParams params, false, body⟩]
  | .apply target arguments => (target :: arena.readList arguments).map (⟨[], false, ·⟩)
  | .array elements => (arena.readList elements).map (⟨[], false, ·⟩)
  | .object asserts fields =>
    let fields := arena.readFields fields
    (fields.map FieldDef.name).map (⟨[], false, ·⟩) ++
      (arena.readList asserts ++ fields.map FieldDef.body).map (⟨[], true, ·⟩)
  | .binary _ left right => [⟨[], false, left⟩, ⟨[], false, right⟩]
  | .unary _ operand => [⟨[], false, operand⟩]
  | .conditional condition whenTrue whenFalse =>
    [⟨[], false, condition⟩, ⟨[], false, whenTrue⟩, ⟨[], false, whenFalse⟩]
  | .index target position => [⟨[], false, target⟩, ⟨[], false, position⟩]
  | .superIndex position => [⟨[], false, position⟩]
  | .error message => [⟨[], false, message⟩]

/-- The places that paths from an expression lead to. -/
inductive Reaches (arena : Arena) (root : NodeId) : Spot → Prop where
  | root : Reaches arena root ⟨[], false, root⟩
  | step {place next : Spot} (path : Reaches arena root place)
      (hnext : next ∈ arena.below place.id) :
    Reaches arena root ⟨next.names ++ place.names, place.inMember || next.inMember, next.id⟩

/-- A path from an expression that stands right below another one is the rest of a path
from that one. -/
theorem Reaches.under {arena : Arena} {root : NodeId} {first place : Spot}
    (hfirst : first ∈ arena.below root) (h : arena.Reaches first.id place) :
  arena.Reaches root ⟨place.names ++ first.names, first.inMember || place.inMember, place.id⟩
  := by
  induction h with
  | root =>
    have h := Reaches.step (.root : arena.Reaches root _) hfirst
    simpa using h
  | step path hnext ih =>
    have h := ih.step hnext
    simpa [Bool.or_assoc] using h

/-- From an expression that has no parts, paths lead nowhere else. -/
theorem Reaches.id_eq_root {arena : Arena} {root : NodeId} (leaf : arena.below root = [])
    {place : Spot} (h : arena.Reaches root place) :
  place.id = root
  := by
  induction h with
  | root => rfl
  | step _ hnext ih =>
    rw [ih, leaf] at hnext
    cases hnext

end Arena

/-- Whether a node refers to the object that it stands in. -/
def Node.usesSelf : Node → Bool
  | .selfRef | .superIndex _ => true
  | _ => false

namespace Code

/-- Every variable of a code is bound on the path to it, or has a property. -/
def Bound (code : Code) (P : Name → Prop) : Prop :=
  ∀ place, code.arena.Reaches code.root place →
    ∀ name, code.arena.node place.id = .var name → name ∈ place.names ∨ P name

/-- Every `self` and `super` of a code stands in a member of an object literal. -/
def Housed (code : Code) : Prop :=
  ∀ place, code.arena.Reaches code.root place →
    (code.arena.node place.id).usesSelf → place.inMember

variable {code : Code} {P Q : Name → Prop}

theorem Bound.mono (h : code.Bound P) (hPQ : ∀ name, P name → Q name) :
  code.Bound Q
  := by
  intro place path name hname
  apply (h place path name hname).imp_right
  apply hPQ

/-- A variable that is the whole code has the property. -/
theorem Bound.root (h : code.Bound P) {name : Name} (hname : code.node = .var name) :
  P name
  := by
  have := h _ .root name hname
  simpa using this

/-- Right below, some names are bound in addition. -/
theorem Bound.below (h : code.Bound P) {next : Spot} (hnext : next ∈ code.arena.below code.root) :
  (code.sibling next.id).Bound fun name => name ∈ next.names ∨ P name
  := by
  intro place path name hname
  have := h _ (path.under hnext) name hname
  rw [List.mem_append] at this
  tauto

/-- A code that is `self` or `super` is not housed. -/
theorem Housed.root (h : code.Housed) :
  code.node.usesSelf = false
  := by
  have := h _ .root
  simpa [node] using this

/-- What stands right below a housed code and is no member is housed. -/
theorem Housed.below (h : code.Housed) {next : Spot} (hnext : next ∈ code.arena.below code.root)
    (hmember : next.inMember = false) :
  (code.sibling next.id).Housed
  := by
  intro place path hself
  have := h _ (path.under hnext) hself
  simpa [hmember] using this

end Code

/-! ### Names in scope -/

/-- Whether a name is bound in a scope. -/
def Scope.Binds (scope : Scope) (name : Name) : Prop := (scope.lookup name).isSome

namespace Scope

/-- Among some bindings, a name is bound if it is the name of one of them. -/
theorem lookup_isSome {α : Type} {bindings : List (Name × α)} {name : Name}
    (h : name ∈ bindings.map Prod.fst) :
  (bindings.lookup name).isSome
  := by
  induction bindings with
  | nil => cases h
  | cons binding rest ih =>
    obtain ⟨other, value⟩ := binding
    rw [List.lookup]
    by_cases heq : name = other
    · simp [heq]
    · rw [beq_false_of_ne heq]
      apply ih
      simpa [heq] using h

/-- A layer binds its names, and the names that were bound stay bound. -/
theorem binds_extend {scope : Scope} {bindings : List (Name × Binding)} {name : Name}
    (h : name ∈ bindings.map Prod.fst ∨ scope.Binds name) :
  (scope.extend bindings).Binds name
  := by
  rw [extend]
  split
  case isTrue hempty =>
    rw [List.isEmpty_iff.mp hempty] at h
    simpa using h
  case isFalse =>
    rw [Binds, lookup]
    cases hlayer : bindings.reverse.lookup name with
    | some binding => rfl
    | none =>
      apply h.resolve_left
      intro hmem
      have hmem : name ∈ bindings.reverse.map Prod.fst := by simpa using hmem
      have hsome := lookup_isSome hmem
      rw [hlayer] at hsome
      cases hsome

/-- Parameters are bound by as many arguments. -/
theorem binds_bindValues {scope : Scope} {params : List Name} {values : List Deferred}
    (hlength : values.length = params.length) {name : Name}
    (h : name ∈ params ∨ scope.Binds name) :
  (scope.bindValues (params.zip values)).Binds name
  := by
  apply binds_extend
  rw [List.map_map]
  change name ∈ (params.zip values).map Prod.fst ∨ _
  rwa [List.map_fst_zip (Nat.le_of_eq hlength.symm)]

/-- Names are bound by as many slots. -/
theorem binds_bindSlots {scope : Scope} {names : List Name} {slots : List SlotId}
    (hlength : slots.length = names.length) {name : Name}
    (h : name ∈ names ∨ scope.Binds name) :
  (scope.bindSlots (names.zip slots)).Binds name
  := by
  apply binds_extend
  rw [List.map_map]
  change name ∈ (names.zip slots).map Prod.fst ∨ _
  rwa [List.map_fst_zip (Nat.le_of_eq hlength.symm)]

end Scope

/-- The environment of a `local` expression binds the names of its bindings, and is no
different in what `self` and `super` are. -/
theorem State.bindLocals_env (state : State) (code : Code) (env : Env) (binds : List Bind) :
  (∀ name, name ∈ binds.map Bind.name ∨ env.scope.Binds name →
    (state.bindLocals code env binds).1.scope.Binds name) ∧
  (state.bindLocals code env binds).1.self? = env.self?
  := by
  refine ⟨?_, rfl⟩
  intro name h
  exact Scope.binds_bindSlots (by simp) h

end Jsonnet
