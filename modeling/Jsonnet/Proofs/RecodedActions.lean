import Jsonnet.Proofs.Mirroring

/-!
# Actions with exchanged codes

No action looks into a code, except that of evaluating it. So every action takes its steps
no matter which codes its data hold, and evaluating a code takes the same steps as evaluating
another one that has the same node and whose children are exchanged in the same way.
-/

namespace Jsonnet

open Action.Recodes

variable {ρ : Recoding} {session : Session}

/-! ### Deferred values -/

/-- Evaluating a code in a frame that shows its location. -/
theorem evaluateIn_recodes (code : Code) (context : FrameContext) (env : Env) :
  Action.Recodes ρ session (Value.recode ρ) (code.evaluateIn context env)
    ((ρ code).evaluateIn context (env.recode ρ))
  := by
  rw [Code.evaluateIn, Code.evaluateIn, ρ.location_eq]
  exact inFrame (.evaluate code env)

theorem call_recodes (f : Function) (arguments : List Deferred) (site : Location) :
  Action.Recodes ρ session (Value.recode ρ) (f.call arguments site)
    ((f.recode ρ).call (arguments.map (Deferred.recode ρ)) site)
  := request (.call f arguments site)

theorem run_recodes (suspension : Suspension) :
  Action.Recodes ρ session (Value.recode ρ) suspension.run (suspension.recode ρ).run
  := by
  cases suspension with
  | code context env body =>
    apply (take (.count .thunk)).bind_id
    intro _
    apply evaluateIn_recodes
  | call f arguments site =>
    rw [Suspension.recode_call]
    apply call_recodes

theorem force_recodes (deferred : Deferred) :
  Action.Recodes ρ session (Value.recode ρ) deferred.force (deferred.recode ρ).force
  := by
  cases deferred with
  | ready value => exact pure
  | suspended suspension => apply run_recodes
  | shared thunk => exact request (.force thunk)
  | failed failure => exact fail

theorem shareAll_recodes (suspensions : List Suspension) :
  Action.Recodes ρ session (List.map (Deferred.recode ρ)) (Action.shareAll suspensions)
    (Action.shareAll (suspensions.map (Suspension.recode ρ)))
  := take (.share suspensions)

theorem textOf_recodes (name : Name) :
  Action.Recodes ρ session id (Action.textOf name) (Action.textOf name)
  := take (.text name)

theorem intern_recodes (s : String) :
  Action.Recodes ρ session id (Action.intern s) (Action.intern s)
  := take (.intern s)

/-! ### Values of one type -/

section

variable (site : Location) (value : Value)

theorem expectNumber_recodes :
  Action.Recodes ρ session id (value.expectNumber site) ((value.recode ρ).expectNumber site)
  := by
  cases value <;> first | exact pure | exact raise

theorem expectString_recodes :
  Action.Recodes ρ session id (value.expectString site) ((value.recode ρ).expectString site)
  := by
  cases value <;> first | exact pure | exact raise

theorem expectBool_recodes :
  Action.Recodes ρ session id (value.expectBool site) ((value.recode ρ).expectBool site)
  := by
  cases value <;> first | exact pure | exact raise

theorem expectArray_recodes :
  Action.Recodes ρ session (Array.map (Deferred.recode ρ)) (value.expectArray site)
    ((value.recode ρ).expectArray site)
  := by
  cases value with
  | array elements => exact pure_of_eq (recodeElements_eq ρ elements)
  | _ => exact raise

theorem expectFunction_recodes :
  Action.Recodes ρ session (Function.recode ρ) (value.expectFunction site)
    ((value.recode ρ).expectFunction site)
  := by
  cases value <;> first | exact pure | exact raise

theorem expectObject_recodes :
  Action.Recodes ρ session (Object.recode ρ) (value.expectObject site)
    ((value.recode ρ).expectObject site)
  := by
  cases value <;> first | exact pure | exact raise

end

/-! ### Fields and assertions -/

theorem read_recodes (object : Object) (minDepth : Nat) (name : Name) (site : Location) :
  Action.Recodes ρ session (Value.recode ρ) (object.read minDepth name site)
    ((object.recode ρ).read minDepth name site)
  := request (.readField object minDepth name site)

theorem acceptAssertion_recodes (value : Value) (site : Location) :
  Action.Recodes ρ session id (acceptAssertion value site)
    (acceptAssertion (value.recode ρ) site)
  := by
  cases value with
  | bool b => cases b <;> first | exact pure | exact raise
  | _ => exact raise

theorem checkAssertion_recodes (object : Object) (leaf : Leaf) (depth : Nat) (assertion : Member) :
  Action.Recodes ρ session id (checkAssertion object leaf depth assertion)
    (checkAssertion (object.recode ρ) (leaf.recode ρ) depth (assertion.recode ρ))
  := by
  cases assertion with
  | ready value => apply acceptAssertion_recodes
  | code body extendsSuper =>
    rw [checkAssertion, Member.recode, checkAssertion, ← Leaf.recode_env, ρ.location_eq]
    apply (evaluateIn_recodes body .assertion (leaf.env object depth)).bind
    intro value
    apply acceptAssertion_recodes

theorem checkAssertions_recodes (object : Object) (assertions : List (Leaf × Nat × Member)) :
  Action.Recodes ρ session id (checkAssertions object assertions)
    (checkAssertions (object.recode ρ)
      (assertions.map fun (l, depth, a) => (l.recode ρ, depth, a.recode ρ)))
  := by
  induction assertions with
  | nil => exact pure
  | cons assertion rest ih =>
    obtain ⟨l, depth, a⟩ := assertion
    apply (checkAssertion_recodes object l depth a).bind_id
    intro _
    exact ih

theorem computeField_recodes (object : Object) (leaf : Leaf) (depth : Nat) (name : Name)
    (site : Location) :
  Action.Recodes ρ session (Value.recode ρ) (computeField object leaf depth name site)
    (computeField (object.recode ρ) (leaf.recode ρ) depth name site)
  := by
  rw [computeField, computeField, Leaf.field?_recode]
  cases leaf.field? name with
  | none => exact fail
  | some field =>
    obtain ⟨visibility, member⟩ := field
    cases member with
    | ready value => exact pure
    | code body extendsSuper =>
      simp only [Option.map_some, Field.recode, Member.recode, ← Leaf.recode_env,
        Object.find?_recode, Option.isSome_map]
      apply (evaluateIn_recodes body (.field name) (leaf.env object depth)).bind
      intro value
      split
      · apply (read_recodes object (addLeaves depth 1) name site).bind
        intro inherited
        exact call_recodes (.builtin (.binary .add)) [.ready inherited, .ready value] site
      · exact pure

theorem readField_recodes (object : Object) (minDepth : Nat) (name : Name) (site : Location) :
  Action.Recodes ρ session (Value.recode ρ) (readField object minDepth name site)
    (readField (object.recode ρ) minDepth name site)
  := by
  apply (request (.check object)).bind_id
  intro _
  rw [Object.find?_recode]
  cases object.find? minDepth name with
  | none =>
    apply (textOf_recodes name).bind_id
    intro text
    exact raise
  | some hit =>
    obtain ⟨leaf, depth⟩ := hit
    exact request (.field object leaf depth name site)

/-! ### Output -/

theorem sortedFields_recodes (object : Object) (includeHidden : Bool) :
  Action.Recodes ρ session id (sortedFields object includeHidden)
    (sortedFields (object.recode ρ) includeHidden)
  := by
  rw [sortedFields, sortedFields, Object.fieldNames_recode]
  exact take (.sort _)

theorem elementDocuments_recodes (elements : List Deferred) (done : List Document) :
  Action.Recodes ρ session id (elementDocuments done elements)
    (elementDocuments done (elements.map (Deferred.recode ρ)))
  := by
  induction elements generalizing done with
  | nil => exact pure
  | cons element rest ih =>
    apply (force_recodes element).bind
    intro value
    apply (request (.document value)).bind_id
    intro document
    apply ih

theorem fieldDocuments_recodes (object : Object) (fields : List Name)
    (done : List (String × Document)) :
  Action.Recodes ρ session id (fieldDocuments object done fields)
    (fieldDocuments (object.recode ρ) done fields)
  := by
  induction fields generalizing done with
  | nil => exact pure
  | cons name rest ih =>
    apply (textOf_recodes name).bind_id
    intro key
    apply (read_recodes object 0 name .unknown).bind
    intro value
    apply (request (.document value)).bind_id
    intro document
    apply ih

theorem computeDocument_recodes (value : Value) :
  Action.Recodes ρ session id (computeDocument value) (computeDocument (value.recode ρ))
  := by
  cases value with
  | array elements =>
    rw [Value.recode_array, computeDocument, computeDocument, Array.toList_map]
    apply (elementDocuments_recodes elements.toList []).bind_id
    intro documents
    exact pure
  | object object =>
    apply (request (.check object)).bind_id
    intro _
    apply (sortedFields_recodes object false).bind_id
    intro fields
    apply (fieldDocuments_recodes object fields []).bind_id
    intro documents
    exact pure
  | function f => exact raise
  | _ => exact pure

theorem manifest_recodes (layout : Layout) (value : Value) :
  Action.Recodes ρ session id (value.manifest layout) ((value.recode ρ).manifest layout)
  := by
  apply (request (.document value)).bind_id
  intro document
  exact pure

theorem displayed_recodes (value : Value) :
  Action.Recodes ρ session id value.displayed (value.recode ρ).displayed
  := by
  cases value with
  | string s => exact pure
  | _ => apply manifest_recodes

/-! ### Comparison -/

theorem elementsEqual_recodes (xs ys : List Deferred) :
  Action.Recodes ρ session id (elementsEqual xs ys)
    (elementsEqual (xs.map (Deferred.recode ρ)) (ys.map (Deferred.recode ρ)))
  := by
  induction xs generalizing ys with
  | nil => exact pure
  | cons x xs ih =>
    cases ys with
    | nil => exact pure
    | cons y ys =>
      apply (force_recodes x).bind
      intro x
      apply (force_recodes y).bind
      intro y
      apply (request (.equal x y)).bind_id
      intro same
      cases same with
      | true => apply ih
      | false => exact pure

theorem fieldsEqual_recodes (o p : Object) (fields : List Name) :
  Action.Recodes ρ session id (fieldsEqual o p fields)
    (fieldsEqual (o.recode ρ) (p.recode ρ) fields)
  := by
  induction fields with
  | nil => exact pure
  | cons name rest ih =>
    apply (read_recodes o 0 name .unknown).bind
    intro x
    apply (read_recodes p 0 name .unknown).bind
    intro y
    apply (request (.equal x y)).bind_id
    intro same
    cases same with
    | true => exact ih
    | false => exact pure

theorem computeEqual_recodes (x y : Value) :
  Action.Recodes ρ session id (computeEqual x y) (computeEqual (x.recode ρ) (y.recode ρ))
  := by
  cases x with
  | array xs =>
    cases y with
    | array ys =>
      simp only [Value.recode_array, computeEqual, Array.size_map, Array.toList_map]
      split
      · exact pure
      · apply elementsEqual_recodes
    | _ => exact pure
  | object o =>
    cases y with
    | object p =>
      apply (sortedFields_recodes o false).bind_id
      intro fields
      apply (sortedFields_recodes p false).bind_id
      intro others
      split
      · exact pure
      · apply fieldsEqual_recodes
    | _ => exact pure
  | function f => cases y <;> first | exact pure | exact raise
  | _ => cases y <;> exact pure

theorem primitiveEqual_recodes (x y : Value) :
  Action.Recodes ρ session id (primitiveEqual x y) (primitiveEqual (x.recode ρ) (y.recode ρ))
  := by
  unfold primitiveEqual
  simp only [Value.typeName_recode]
  split
  · exact pure
  · cases x with
    | function f => exact raise
    | array xs => cases y <;> exact raise
    | object o => cases y <;> exact raise
    | _ => cases y <;> first | exact pure | exact raise

theorem orderElements_recodes (operator : BinaryOp) (xs ys : List Deferred) :
  Action.Recodes ρ session id (orderElements operator xs ys)
    (orderElements operator (xs.map (Deferred.recode ρ)) (ys.map (Deferred.recode ρ)))
  := by
  induction xs generalizing ys with
  | nil => cases ys <;> exact pure
  | cons x xs ih =>
    cases ys with
    | nil => exact pure
    | cons y ys =>
      apply (force_recodes x).bind
      intro x
      apply (force_recodes y).bind
      intro y
      apply (request (.order operator x y)).bind_id
      intro order
      cases order with
      | eq => apply ih
      | _ => exact pure

theorem computeOrder_recodes (operator : BinaryOp) (x y : Value) :
  Action.Recodes ρ session id (computeOrder operator x y)
    (computeOrder operator (x.recode ρ) (y.recode ρ))
  := by
  cases x with
  | array xs =>
    cases y with
    | array ys =>
      rw [Value.recode_array, Value.recode_array, computeOrder, computeOrder, Array.toList_map,
        Array.toList_map]
      apply orderElements_recodes
    | _ => exact raise
  | number a => cases y <;> first | exact pure | exact raise
  | string a => cases y <;> first | exact pure | exact raise
  | _ => cases y <;> exact raise

end Jsonnet
