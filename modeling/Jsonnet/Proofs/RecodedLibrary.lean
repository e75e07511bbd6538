import Jsonnet.Proofs.RecodedActions

/-!
# Operators and the library with exchanged codes

What operators and the functions of the library compute does not depend on the codes in their
arguments, other than by evaluating them.
-/

namespace Jsonnet

open Action.Recodes

variable {ρ : Recoding} {session : Session}

/-! ### Operators -/

theorem checked_recodes (x : Number) :
  Action.Recodes ρ session (Value.recode ρ) (checked x) (checked x)
  := by
  unfold checked
  split
  · exact raise
  · split
    · exact raise
    · exact pure

section

variable (x y : Deferred)

theorem expectNumbers_recodes :
  Action.Recodes ρ session id (expectNumbers x y) (expectNumbers (x.recode ρ) (y.recode ρ))
  := by
  apply (force_recodes x).bind
  intro u
  apply (expectNumber_recodes .unknown u).bind_id
  intro a
  apply (force_recodes y).bind
  intro v
  apply (expectNumber_recodes .unknown v).bind_id
  intro b
  exact pure

/-- A function of two numbers. -/
theorem ofNumbers_recodes {f : Number × Number → Action Value}
    (hf : ∀ numbers, Action.Recodes ρ session (Value.recode ρ) (f numbers) (f numbers)) :
  Action.Recodes ρ session (Value.recode ρ) (expectNumbers x y >>= f)
    (expectNumbers (x.recode ρ) (y.recode ρ) >>= f)
  := (expectNumbers_recodes x y).bind_id hf

/-- A function of two computed values. -/
theorem forceBoth_recodes {α : Type} {g : α → α} {f : Value → Value → Action α}
    (hf : ∀ u v, Action.Recodes ρ session g (f u v) (f (u.recode ρ) (v.recode ρ))) :
  Action.Recodes ρ session g
    (do let a ← x.force
        let b ← y.force
        f a b)
    (do let a ← (x.recode ρ).force
        let b ← (y.recode ρ).force
        f a b)
  := by
  apply (force_recodes x).bind
  intro u
  apply (force_recodes y).bind
  intro v
  exact hf u v

theorem divide_recodes (f : Number → Number → Number) :
  Action.Recodes ρ session (Value.recode ρ) (divide f x y)
    (divide f (x.recode ρ) (y.recode ρ))
  := by
  apply ofNumbers_recodes
  rintro ⟨a, b⟩
  dsimp only
  split
  · exact raise
  · apply checked_recodes

theorem onWords_recodes (f : Int → Int → Int) :
  Action.Recodes ρ session (Value.recode ρ) (onWords f x y)
    (onWords f (x.recode ρ) (y.recode ρ))
  := by
  apply ofNumbers_recodes
  rintro ⟨a, b⟩
  exact pure

theorem shift_recodes (f : Int → Nat → Int) :
  Action.Recodes ρ session (Value.recode ρ) (shift f x y) (shift f (x.recode ρ) (y.recode ρ))
  := by
  apply ofNumbers_recodes
  rintro ⟨a, b⟩
  dsimp only
  split
  · exact raise
  · exact pure

theorem add_recodes :
  Action.Recodes ρ session (Value.recode ρ) (add x y) (add (x.recode ρ) (y.recode ρ))
  := by
  apply forceBoth_recodes
  intro u v
  have before : ∀ s : String, Action.Recodes ρ session (Value.recode ρ)
      (do return .string (s ++ (← v.displayed)))
      (do return .string (s ++ (← (v.recode ρ).displayed))) := by
    intro s
    apply (displayed_recodes v).bind_id
    intro text
    exact pure
  have behind : ∀ s : String, Action.Recodes ρ session (Value.recode ρ)
      (do return .string ((← u.displayed) ++ s))
      (do return .string ((← (u.recode ρ).displayed) ++ s)) := by
    intro s
    apply (displayed_recodes u).bind_id
    intro text
    exact pure
  cases u with
  | string a =>
    cases v with
    | string b => exact pure
    | _ => exact before a
  | number a =>
    cases v with
    | number b => apply checked_recodes
    | string b => exact behind b
    | _ => exact raise
  | array elements =>
    cases v with
    | array others =>
      apply pure_of_eq
      simp only [Value.recode_array, recodeElements_eq, Array.map_append]
    | string b => exact behind b
    | _ => exact raise
  | object o =>
    cases v with
    | object p =>
      apply (take (.combine o p)).bind
      intro joined
      exact pure
    | string b => exact behind b
    | _ => exact raise
  | _ =>
    cases v with
    | string b => exact behind b
    | _ => exact raise

theorem operandsEqual_recodes :
  Action.Recodes ρ session id (operandsEqual x y) (operandsEqual (x.recode ρ) (y.recode ρ))
  := by
  apply forceBoth_recodes
  intro u v
  exact request (.equal u v)

theorem ordered_recodes (operator : BinaryOp) (accept : Ordering → Bool) :
  Action.Recodes ρ session (Value.recode ρ) (ordered operator accept x y)
    (ordered operator accept (x.recode ρ) (y.recode ρ))
  := by
  apply forceBoth_recodes
  intro u v
  apply (request (.order operator u v)).bind_id
  intro order
  exact pure

theorem shortCircuit_recodes (deciding : Bool) :
  Action.Recodes ρ session (Value.recode ρ) (shortCircuit deciding x y)
    (shortCircuit deciding (x.recode ρ) (y.recode ρ))
  := by
  apply (force_recodes x).bind
  intro u
  apply (expectBool_recodes .unknown u).bind_id
  intro decision
  split
  · exact pure
  · apply (force_recodes y).bind
    intro v
    apply (expectBool_recodes .unknown v).bind_id
    intro result
    exact pure

theorem applyBinary_recodes (op : BinaryOp) :
  Action.Recodes ρ session (Value.recode ρ) (applyBinary op x y)
    (applyBinary op (x.recode ρ) (y.recode ρ))
  := by
  cases op with
  | mul | sub =>
    apply ofNumbers_recodes
    rintro ⟨a, b⟩
    apply checked_recodes
  | div | mod => apply divide_recodes
  | add => apply add_recodes
  | shiftLeft | shiftRight => apply shift_recodes
  | less | lessEq | greater | greaterEq => apply ordered_recodes
  | equal | notEqual =>
    apply (operandsEqual_recodes x y).bind_id
    intro same
    exact pure
  | bitAnd | bitXor | bitOr => apply onWords_recodes
  | and | or => apply shortCircuit_recodes

theorem applyUnary_recodes (op : UnaryOp) :
  Action.Recodes ρ session (Value.recode ρ) (applyUnary op x) (applyUnary op (x.recode ρ))
  := by
  apply (force_recodes x).bind
  intro u
  cases op <;> cases u <;> first | exact pure | exact raise

end

/-! ### The library -/

section

variable (x y z : Deferred)

theorem numberArgument_recodes :
  Action.Recodes ρ session id (numberArgument x) (numberArgument (x.recode ρ))
  := by
  apply (force_recodes x).bind
  intro u
  apply expectNumber_recodes

theorem stringArgument_recodes :
  Action.Recodes ρ session id (stringArgument x) (stringArgument (x.recode ρ))
  := by
  apply (force_recodes x).bind
  intro u
  apply expectString_recodes

theorem lengthOf_recodes :
  Action.Recodes ρ session (Value.recode ρ) (lengthOf x) (lengthOf (x.recode ρ))
  := by
  apply (force_recodes x).bind
  intro u
  cases u with
  | array elements =>
    apply pure_of_eq
    rw [recodeElements_eq, Array.size_map]
    rfl
  | object o =>
    apply pure_of_eq
    rw [Object.fieldNames_recode]
    rfl
  | function f =>
    apply pure_of_eq
    rw [Function.arity_recode]
    rfl
  | string s => exact pure
  | _ => exact raise

theorem codepointOf_recodes :
  Action.Recodes ρ session (Value.recode ρ) (codepointOf x) (codepointOf (x.recode ρ))
  := by
  apply (stringArgument_recodes x).bind_id
  intro s
  split
  · exact pure
  · exact raise

theorem charOf_recodes :
  Action.Recodes ρ session (Value.recode ρ) (charOf x) (charOf (x.recode ρ))
  := by
  apply (numberArgument_recodes x).bind_id
  intro n
  split
  · exact raise
  · dsimp only
    split
    · exact pure
    · exact raise

theorem makeArray_recodes :
  Action.Recodes ρ session (Value.recode ρ) (makeArray x y)
    (makeArray (x.recode ρ) (y.recode ρ))
  := by
  apply (numberArgument_recodes x).bind_id
  intro n
  split
  · exact raise
  split
  · exact raise
  apply (force_recodes y).bind
  intro u
  apply (expectFunction_recodes .unknown u).bind
  intro f
  dsimp only
  split
  · exact fail
  have hcalls : ((List.range n.word.toNat).map fun i =>
        Suspension.call (f.recode ρ) [.ready (.number (.ofNat i))] .unknown)
      = ((List.range n.word.toNat).map fun i =>
        Suspension.call f [.ready (.number (.ofNat i))] .unknown).map (Suspension.recode ρ) := by
    rw [List.map_map]
    rfl
  rw [hcalls]
  apply (shareAll_recodes _).bind
  intro values
  apply pure_of_eq
  rw [Value.recode_array, List.map_toArray]

theorem filterElements_recodes (f : Function) (elements kept : List Deferred) :
  Action.Recodes ρ session (Value.recode ρ) (filterElements f kept elements)
    (filterElements (f.recode ρ) (kept.map (Deferred.recode ρ))
      (elements.map (Deferred.recode ρ)))
  := by
  induction elements generalizing kept with
  | nil =>
    apply pure_of_eq
    rw [Value.recode_array, ← List.map_reverse, List.map_toArray]
  | cons element rest ih =>
    apply (call_recodes f [element] .unknown).bind
    intro accepted
    cases accepted with
    | bool b =>
      cases b with
      | true => exact ih (element :: kept)
      | false => exact ih kept
    | _ => exact raise

theorem filterArray_recodes :
  Action.Recodes ρ session (Value.recode ρ) (filterArray x y)
    (filterArray (x.recode ρ) (y.recode ρ))
  := by
  apply (force_recodes x).bind
  intro u
  apply (expectFunction_recodes .unknown u).bind
  intro f
  apply (force_recodes y).bind
  intro v
  apply (expectArray_recodes .unknown v).bind
  intro elements
  rw [Array.toList_map]
  exact filterElements_recodes f elements.toList []

theorem ofNumber_recodes (f : Number → Number) :
  Action.Recodes ρ session (Value.recode ρ) (ofNumber f x) (ofNumber f (x.recode ρ))
  := by
  apply (numberArgument_recodes x).bind_id
  intro n
  apply checked_recodes

theorem fieldTexts_recodes (fields : List Name) (done : List String) :
  Action.Recodes ρ session (Value.recode ρ) (fieldTexts (done.map .string) fields)
    (fieldTexts (done.map .string) fields)
  := by
  induction fields generalizing done with
  | nil =>
    apply pure_of_eq
    rw [Value.ofList, Value.recode_array, ← List.map_reverse, List.map_map, List.map_toArray,
      List.map_map]
    rfl
  | cons name rest ih =>
    apply (textOf_recodes name).bind_id
    intro s
    exact ih (s :: done)

theorem fieldsOf_recodes :
  Action.Recodes ρ session (Value.recode ρ) (fieldsOf x y) (fieldsOf (x.recode ρ) (y.recode ρ))
  := by
  apply (force_recodes x).bind
  intro u
  apply (expectObject_recodes .unknown u).bind
  intro o
  apply (force_recodes y).bind
  intro v
  apply (expectBool_recodes .unknown v).bind_id
  intro includeHidden
  apply (sortedFields_recodes o includeHidden).bind_id
  intro fields
  exact fieldTexts_recodes fields []

theorem hasField_recodes :
  Action.Recodes ρ session (Value.recode ρ) (hasField x y z)
    (hasField (x.recode ρ) (y.recode ρ) (z.recode ρ))
  := by
  apply (force_recodes x).bind
  intro u
  apply (expectObject_recodes .unknown u).bind
  intro o
  apply (stringArgument_recodes y).bind_id
  intro s
  apply (force_recodes z).bind
  intro v
  apply (expectBool_recodes .unknown v).bind_id
  intro includeHidden
  apply (intern_recodes s).bind_id
  intro name
  apply pure_of_eq
  rw [Object.hasField_recode]
  rfl

theorem externalVariable_recodes (name : Name) :
  Action.Recodes ρ session (Value.recode ρ) (externalVariable name) (externalVariable name)
  := by
  apply session_bind
  dsimp only [Session.recode]
  cases session.externals.reverse.lookup name with
  | none =>
    apply (textOf_recodes name).bind_id
    intro text
    exact raise
  | some given =>
    apply (take (.external name given)).bind
    intro value
    apply force_recodes

end

/-- The functions of the library take exchanged codes for exchanged codes, and a wrong number of
arguments is wrong for both. -/
theorem applyLibrary_recodes (f : LibraryFunction) (arguments : List Deferred) :
  Option.Rel (Action.Recodes ρ session (Value.recode ρ)) (applyLibrary f arguments)
    (applyLibrary f (arguments.map (Deferred.recode ρ)))
  := by
  obtain _ | ⟨x, _ | ⟨y, _ | ⟨z, _ | ⟨_, _⟩⟩⟩⟩ := arguments
  · cases f <;> exact .none
  · cases f with
    | length => exact .some (lengthOf_recodes x)
    | type =>
      refine .some ?_
      apply (force_recodes x).bind
      intro u
      apply pure_of_eq
      rw [Value.typeName_recode]
      rfl
    | toString =>
      refine .some ?_
      apply (force_recodes x).bind
      intro u
      apply (displayed_recodes u).bind_id
      intro text
      exact pure
    | codepoint => exact .some (codepointOf_recodes x)
    | char => exact .some (charOf_recodes x)
    | floor | ceil | sqrt | exp | log => exact .some (ofNumber_recodes x _)
    | extVar =>
      refine .some ?_
      apply (stringArgument_recodes x).bind_id
      intro s
      apply (intern_recodes s).bind_id
      intro name
      apply externalVariable_recodes
    | _ => exact .none
  · cases f with
    | makeArray => exact .some (makeArray_recodes x y)
    | filter => exact .some (filterArray_recodes x y)
    | pow =>
      refine .some ?_
      apply (numberArgument_recodes x).bind_id
      intro a
      apply (numberArgument_recodes y).bind_id
      intro b
      apply checked_recodes
    | modulo => exact .some (divide_recodes x y _)
    | primitiveEquals =>
      refine .some ?_
      apply forceBoth_recodes
      intro u v
      apply (primitiveEqual_recodes u v).bind_id
      intro same
      exact pure
    | equals =>
      refine .some ?_
      apply (operandsEqual_recodes x y).bind_id
      intro same
      exact pure
    | objectFieldsEx => exact .some (fieldsOf_recodes x y)
    | _ => exact .none
  · cases f with
    | objectHasEx => exact .some (hasField_recodes x y z)
    | _ => exact .none
  · cases f <;> exact .none

theorem applyBuiltin_recodes (b : Builtin) (arguments : List Deferred) :
  Action.Recodes ρ session (Value.recode ρ) (applyBuiltin b arguments)
    (applyBuiltin b (arguments.map (Deferred.recode ρ)))
  := by
  cases b with
  | binary op =>
    obtain _ | ⟨x, _ | ⟨y, _ | ⟨_, _⟩⟩⟩ := arguments
    case cons.cons.nil => apply applyBinary_recodes
    all_goals exact fail
  | unary op =>
    obtain _ | ⟨x, _ | ⟨_, _⟩⟩ := arguments
    case cons.nil => apply applyUnary_recodes
    all_goals exact fail
  | library f =>
    have h : Option.Rel (Action.Recodes ρ session (Value.recode ρ)) (applyLibrary f arguments)
        (applyLibrary f (arguments.map (Deferred.recode ρ))) := applyLibrary_recodes f arguments
    rw [applyBuiltin, applyBuiltin]
    generalize applyLibrary f arguments = x at h ⊢
    generalize applyLibrary f (arguments.map (Deferred.recode ρ)) = y at h ⊢
    cases h with
    | some h => exact h
    | none => exact fail

theorem callFunction_recodes (f : Function) (arguments : List Deferred) (site : Location) :
  Action.Recodes ρ session (Value.recode ρ) (callFunction f arguments site)
    (callFunction (f.recode ρ) (arguments.map (Deferred.recode ρ)) site)
  := by
  cases f with
  | closure env params body =>
    simp only [callFunction, Function.recode, List.length_map]
    split
    · exact raise
    · apply (take (.count .functionCall)).bind_id
      intro _
      rw [Env.scope_recode, ← Scope.recode_bindValues, ← Env.recode_withScope]
      exact inFrame (.evaluate body _)
  | builtin b =>
    simp only [callFunction, Function.recode, List.length_map]
    split
    · exact raise
    · apply (take (.count .builtinCall)).bind_id
      intro _
      exact inFrame (.builtin b arguments)

end Jsonnet
