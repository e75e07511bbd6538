import Mathlib.Tactic.Common
import Jsonnet.Eval.Field

/-!
# Exchanging codes

A recoding exchanges every code for another one at the same location. It acts on all data by
acting on the codes in them and on nothing else, so it commutes with everything that does not
look into a code: the lookup of names and fields, the order and the visibility of the fields
of an object, and the types of values.
-/

namespace Jsonnet

/-- A way of exchanging codes for others at the same locations. -/
structure Recoding where
  apply : Code → Code
  location_apply : ∀ code, (apply code).location = code.location

instance : CoeFun Recoding fun _ => Code → Code := ⟨Recoding.apply⟩

@[simp]
theorem Recoding.location_eq (ρ : Recoding) (code : Code) :
  (ρ code).location = code.location
  := ρ.location_apply code

/-! ### Recoded data -/

mutual

/-- A value with its codes exchanged. -/
def Value.recode (ρ : Recoding) : Value → Value
  | .null => .null
  | .bool b => .bool b
  | .number x => .number x
  | .string s => .string s
  | .array elements => .array (recodeElements ρ elements)
  | .function f => .function (f.recode ρ)
  | .object o => .object (o.recode ρ)

/-- A function with its codes exchanged. -/
def Function.recode (ρ : Recoding) : Function → Function
  | .closure env params body => .closure (env.recode ρ) params (ρ body)
  | .builtin b => .builtin b

/-- A deferred value with its codes exchanged. -/
def Deferred.recode (ρ : Recoding) : Deferred → Deferred
  | .ready value => .ready (value.recode ρ)
  | .suspended suspension => .suspended (suspension.recode ρ)
  | .shared thunk => .shared thunk
  | .failed failure => .failed failure

/-- A computation that waits, with its codes exchanged. -/
def Suspension.recode (ρ : Recoding) : Suspension → Suspension
  | .code context env code => .code context (env.recode ρ) (ρ code)
  | .call f arguments site => .call (f.recode ρ) (recodeList ρ arguments) site

/-- A binding with its codes exchanged. -/
def Binding.recode (ρ : Recoding) : Binding → Binding
  | .value deferred => .value (deferred.recode ρ)
  | .slot slot => .slot slot

/-- A scope with its codes exchanged. -/
def Scope.recode (ρ : Recoding) : Scope → Scope
  | .empty => .empty
  | .layer bindings outer => .layer (recodeBindings ρ bindings) (outer.recode ρ)

/-- An environment with its codes exchanged. -/
def Env.recode (ρ : Recoding) : Env → Env
  | ⟨scope, self?, superDepth⟩ => ⟨scope.recode ρ, recodeSelf ρ self?, superDepth⟩

/-- A member with its codes exchanged. -/
def Member.recode (ρ : Recoding) : Member → Member
  | .code code extendsSuper => .code (ρ code) extendsSuper
  | .ready value => .ready (value.recode ρ)

/-- A field with its codes exchanged. -/
def Field.recode (ρ : Recoding) : Field → Field
  | ⟨visibility, member⟩ => ⟨visibility, member.recode ρ⟩

/-- An object literal with its codes exchanged. -/
def Leaf.recode (ρ : Recoding) : Leaf → Leaf
  | ⟨id, scope, fields, asserts⟩ =>
    ⟨id, scope.recode ρ, recodeFields ρ fields, recodeMembers ρ asserts⟩

/-- An object with its codes exchanged. -/
def Object.recode (ρ : Recoding) : Object → Object
  | .leaf l => .leaf (l.recode ρ)
  | .join id size hasAsserts left right =>
    .join id size hasAsserts (left.recode ρ) (right.recode ρ)

/-- The elements of an array with their codes exchanged. -/
def recodeElements (ρ : Recoding) : Array Deferred → Array Deferred
  | ⟨elements⟩ => ⟨recodeList ρ elements⟩

/-- Deferred values with their codes exchanged. -/
def recodeList (ρ : Recoding) : List Deferred → List Deferred
  | [] => []
  | deferred :: rest => deferred.recode ρ :: recodeList ρ rest

/-- The bindings of a layer with their codes exchanged. -/
def recodeBindings (ρ : Recoding) : List (Name × Binding) → List (Name × Binding)
  | [] => []
  | binding :: rest => recodeBinding ρ binding :: recodeBindings ρ rest

/-- The binding of a name with its codes exchanged. -/
def recodeBinding (ρ : Recoding) : Name × Binding → Name × Binding
  | (name, binding) => (name, binding.recode ρ)

/-- The object that is `self` with its codes exchanged. -/
def recodeSelf (ρ : Recoding) : Option Object → Option Object
  | none => none
  | some object => some (object.recode ρ)

/-- The fields of a literal with their codes exchanged. -/
def recodeFields (ρ : Recoding) : List (Name × Field) → List (Name × Field)
  | [] => []
  | field :: rest => recodeField ρ field :: recodeFields ρ rest

/-- The field of a name with its codes exchanged. -/
def recodeField (ρ : Recoding) : Name × Field → Name × Field
  | (name, field) => (name, field.recode ρ)

/-- The members of a literal with their codes exchanged. -/
def recodeMembers (ρ : Recoding) : List Member → List Member
  | [] => []
  | member :: rest => member.recode ρ :: recodeMembers ρ rest

end

/-- What stands under the number of a thunk, with its codes exchanged. -/
def Cell.recode (ρ : Recoding) : Cell → Cell
  | .pending suspension => .pending (suspension.recode ρ)
  | .ready value => .ready (value.recode ρ)

variable (ρ : Recoding)

/-! ### Lists -/

theorem recodeList_eq (deferreds : List Deferred) :
  recodeList ρ deferreds = deferreds.map (Deferred.recode ρ)
  := by
  induction deferreds with
  | nil => rfl
  | cons deferred rest ih => rw [recodeList, ih, List.map_cons]

theorem recodeElements_eq (elements : Array Deferred) :
  recodeElements ρ elements = elements.map (Deferred.recode ρ)
  := by
  obtain ⟨elements⟩ := elements
  rw [recodeElements, recodeList_eq, List.map_toArray]

theorem recodeBindings_eq (bindings : List (Name × Binding)) :
  recodeBindings ρ bindings = bindings.map fun entry => (entry.1, entry.2.recode ρ)
  := by
  induction bindings with
  | nil => rfl
  | cons binding rest ih => rw [recodeBindings, ih, List.map_cons, recodeBinding]

theorem recodeSelf_eq (self? : Option Object) :
  recodeSelf ρ self? = self?.map (Object.recode ρ)
  := by
  cases self? <;> rfl

theorem recodeFields_eq (fields : List (Name × Field)) :
  recodeFields ρ fields = fields.map fun entry => (entry.1, entry.2.recode ρ)
  := by
  induction fields with
  | nil => rfl
  | cons field rest ih => rw [recodeFields, ih, List.map_cons, recodeField]

theorem recodeMembers_eq (members : List Member) :
  recodeMembers ρ members = members.map (Member.recode ρ)
  := by
  induction members with
  | nil => rfl
  | cons member rest ih => rw [recodeMembers, ih, List.map_cons]

/-- Recoding what names stand for commutes with looking a name up. -/
theorem lookup_map_snd {α β : Type} (g : α → β) (name : Name) (entries : List (Name × α)) :
  (entries.map fun entry => (entry.1, g entry.2)).lookup name = (entries.lookup name).map g
  := by
  induction entries with
  | nil => rfl
  | cons entry rest ih =>
    obtain ⟨other, a⟩ := entry
    rw [List.map_cons, List.lookup_cons, List.lookup_cons]
    cases name == other with
    | true => rfl
    | false => exact ih

/-! ### Values and functions -/

theorem Value.recode_array (elements : Array Deferred) :
  (Value.array elements).recode ρ = .array (elements.map (Deferred.recode ρ))
  := by
  rw [recode, recodeElements_eq]

@[simp]
theorem Value.typeName_recode (value : Value) :
  (value.recode ρ).typeName = value.typeName
  := by
  cases value <;> rfl

@[simp]
theorem Function.arity_recode (f : Function) :
  (f.recode ρ).arity = f.arity
  := by
  cases f <;> rfl

theorem Suspension.recode_call (f : Function) (arguments : List Deferred) (site : Location) :
  (Suspension.call f arguments site).recode ρ
    = .call (f.recode ρ) (arguments.map (Deferred.recode ρ)) site
  := by
  rw [recode, recodeList_eq]

/-! ### Scopes and environments -/

theorem Scope.recode_extend (scope : Scope) (bindings : List (Name × Binding)) :
  (scope.extend bindings).recode ρ
    = (scope.recode ρ).extend (bindings.map fun entry => (entry.1, entry.2.recode ρ))
  := by
  cases bindings with
  | nil => rfl
  | cons binding rest =>
    rw [← recodeBindings_eq]
    rfl

theorem Scope.recode_bindValues (scope : Scope) (names : List Name) (values : List Deferred) :
  (scope.bindValues (names.zip values)).recode ρ
    = (scope.recode ρ).bindValues (names.zip (values.map (Deferred.recode ρ)))
  := by
  rw [bindValues, recode_extend, bindValues, List.zip_map_right, List.map_map, List.map_map]
  rfl

theorem Scope.recode_bindSlots (scope : Scope) (slots : List (Name × SlotId)) :
  (scope.bindSlots slots).recode ρ = (scope.recode ρ).bindSlots slots
  := by
  rw [bindSlots, recode_extend, bindSlots, List.map_map]
  rfl

theorem Scope.lookup_recode (name : Name) : ∀ scope : Scope,
  (scope.recode ρ).lookup name = (scope.lookup name).map (Binding.recode ρ)
  | .empty => rfl
  | .layer bindings outer => by
    rw [recode, lookup, lookup, lookup_recode name outer, recodeBindings_eq, ← List.map_reverse,
      lookup_map_snd]
    cases bindings.reverse.lookup name <;> rfl

@[simp]
theorem Env.scope_recode (env : Env) :
  (env.recode ρ).scope = env.scope.recode ρ
  := by
  cases env
  rfl

@[simp]
theorem Env.self?_recode (env : Env) :
  (env.recode ρ).self? = env.self?.map (Object.recode ρ)
  := by
  obtain ⟨scope, self?, superDepth⟩ := env
  apply recodeSelf_eq

@[simp]
theorem Env.superDepth_recode (env : Env) :
  (env.recode ρ).superDepth = env.superDepth
  := by
  cases env
  rfl

theorem Env.recode_withScope (env : Env) (scope : Scope) :
  (env.withScope scope).recode ρ = (env.recode ρ).withScope (scope.recode ρ)
  := by
  cases env
  rfl

/-! ### Objects -/

section

variable (l : Leaf) (o : Object)

@[simp]
theorem Leaf.id_recode :
  (l.recode ρ).id = l.id
  := by
  cases l
  rfl

theorem Leaf.fields_recode :
  (l.recode ρ).fields = l.fields.map fun entry => (entry.1, entry.2.recode ρ)
  := by
  cases l
  apply recodeFields_eq

theorem Leaf.asserts_recode :
  (l.recode ρ).asserts = l.asserts.map (Member.recode ρ)
  := by
  cases l
  apply recodeMembers_eq

theorem Leaf.field?_recode (name : Name) :
  (l.recode ρ).field? name = (l.field? name).map (Field.recode ρ)
  := by
  rw [field?, fields_recode, lookup_map_snd, field?]

theorem Leaf.recode_env (object : Object) (depth : Nat) :
  (l.env object depth).recode ρ = (l.recode ρ).env (object.recode ρ) depth
  := by
  cases l
  rfl

@[simp]
theorem Object.id_recode :
  (o.recode ρ).id = o.id
  := by
  cases o with
  | leaf l => apply Leaf.id_recode
  | join => rfl

@[simp]
theorem Object.size_recode :
  (o.recode ρ).size = o.size
  := by
  cases o <;> rfl

@[simp]
theorem Object.hasAsserts_recode :
  (o.recode ρ).hasAsserts = o.hasAsserts
  := by
  cases o with
  | leaf l => rw [recode, hasAsserts, hasAsserts, Leaf.asserts_recode, List.isEmpty_map]
  | join => rfl

@[simp]
theorem Object.fieldKey_recode (name : Name) (depth : Nat) :
  (o.recode ρ).fieldKey name depth = o.fieldKey name depth
  := by
  rw [fieldKey, id_recode, fieldKey]

end

theorem Object.recode_combine (id : ObjectId) (left right : Object) :
  (Object.combine id left right).recode ρ = .combine id (left.recode ρ) (right.recode ρ)
  := by
  simp only [combine, recode, size_recode, hasAsserts_recode]

theorem Object.leavesFrom_recode : ∀ (o : Object) (skipped : Nat),
  (o.recode ρ).leavesFrom skipped = (o.leavesFrom skipped).map fun hit => (hit.1.recode ρ, hit.2)
  | .leaf l, skipped => rfl
  | .join id size hasAsserts left right, skipped => by
    rw [recode, leavesFrom, leavesFrom, size_recode, leavesFrom_recode right,
      leavesFrom_recode left, List.map_append]

/-- The assertions of a recoded object, at the same depths. -/
theorem Object.assertions_recode (o : Object) :
  (o.recode ρ).assertions
    = o.assertions.map fun (l, depth, a) => (l.recode ρ, depth, a.recode ρ)
  := by
  rw [assertions, leaves, leavesFrom_recode, List.flatMap_map, assertions, List.map_flatMap]
  congr 1
  funext ⟨l, depth⟩
  change (l.recode ρ).asserts.map (fun a => (l.recode ρ, depth, a)) = _
  rw [Leaf.asserts_recode, List.map_map, List.map_map]
  rfl

theorem Object.findFrom_recode (name : Name) : ∀ (o : Object) (minDepth skipped : Nat),
  (o.recode ρ).findFrom name minDepth skipped
    = (o.findFrom name minDepth skipped).map fun hit => (hit.1.recode ρ, hit.2)
  | .leaf l, minDepth, skipped => by
    rw [recode, findFrom, findFrom, Leaf.field?_recode, Option.isSome_map]
    split <;> rfl
  | .join id size hasAsserts left right, minDepth, skipped => by
    rw [recode, findFrom, findFrom, size_recode, findFrom_recode name right,
      findFrom_recode name left]
    by_cases hdepth : minDepth < right.size
    · rw [if_pos hdepth, if_pos hdepth]
      cases right.findFrom name minDepth skipped <;> rfl
    · rw [if_neg hdepth, if_neg hdepth]

/-- A field is found in the recoded literal, at the same depth. -/
theorem Object.find?_recode (o : Object) (minDepth : Nat) (name : Name) :
  (o.recode ρ).find? minDepth name
    = (o.find? minDepth name).map fun hit => (hit.1.recode ρ, hit.2)
  := by
  apply findFrom_recode

theorem Object.visibilityOver_recode : ∀ (o : Object) (seen : List (Name × Visibility)),
  (o.recode ρ).visibilityOver seen = o.visibilityOver seen
  | .leaf l, seen => by
    rw [recode, visibilityOver, Leaf.fields_recode, List.foldl_map, visibilityOver]
    congr 1
    funext seen ⟨name, field⟩
    cases field
    rfl
  | .join id size hasAsserts left right, seen => by
    rw [recode, visibilityOver, visibilityOver_recode left, visibilityOver_recode right,
      visibilityOver]

@[simp]
theorem Object.fieldNames_recode (o : Object) (includeHidden : Bool) :
  (o.recode ρ).fieldNames includeHidden = o.fieldNames includeHidden
  := by
  rw [fieldNames, visibility, visibilityOver_recode, fieldNames, visibility]

@[simp]
theorem Object.hasField_recode (o : Object) (name : Name) (includeHidden : Bool) :
  (o.recode ρ).hasField name includeHidden = o.hasField name includeHidden
  := by
  rw [hasField, find?_recode, visibility, visibilityOver_recode, Option.isSome_map, hasField,
    visibility]

end Jsonnet
