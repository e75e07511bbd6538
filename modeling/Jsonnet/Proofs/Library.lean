import Jsonnet.Proofs.Builtins

/-!
# Operators and the library in lockstep

What an operator or a function of the library does depends on its arguments only up to
what is paired.
-/

namespace Jsonnet

open Action.Related

variable {session session' : Session} {τ : Terms} {w : World τ}

/-! ### Operators -/

theorem checked_related (x : Number) :
  Action.Related session session' Matching w (checked x) (checked x)
  := by
  unfold checked
  split
  · exact raiseHere trivial
  · split
    · exact raiseHere trivial
    · exact pure (.number x)

section

variable {x y x' y' : Deferred} (hx : x.Matches w.toPairing x') (hy : y.Matches w.toPairing y')

include hx hy

theorem expectNumbers_related :
  Action.Related session session' Same w (expectNumbers x y) (expectNumbers x' y')
  := by
  apply (force_related hx).bind
  intro w₁ hle₁ v v' hv
  apply (expectNumber_related hv Terms.agrees_rfl).bind
  intro w₂ hle₂ a _ ha
  cases ha
  apply (force_related (hy.mono (hle₁.trans hle₂))).bind
  intro w₃ hle₃ u u' hu
  apply (expectNumber_related hu Terms.agrees_rfl).bind
  intro w₄ hle₄ b _ hb
  cases hb
  exact pure rfl

/-- A function of two numbers in lockstep. -/
theorem ofNumbers_related {f : Number × Number → Action Value}
    (hf : ∀ (w' : World τ) (a : Number × Number),
      Action.Related session session' Matching w' (f a) (f a)) :
  Action.Related session session' Matching w (expectNumbers x y >>= f)
    (expectNumbers x' y' >>= f)
  := by
  apply (expectNumbers_related hx hy).bind
  intro w' hle a _ ha
  cases ha
  exact hf w' a

theorem divide_related (f : Number → Number → Number) :
  Action.Related session session' Matching w (divide f x y) (divide f x' y')
  := by
  apply ofNumbers_related hx hy
  rintro w' ⟨a, b⟩
  dsimp only
  split
  · exact raiseHere trivial
  · exact checked_related _

theorem onWords_related (f : Int → Int → Int) :
  Action.Related session session' Matching w (onWords f x y) (onWords f x' y')
  := by
  apply ofNumbers_related hx hy
  rintro w' ⟨a, b⟩
  exact pure (.number _)

theorem shift_related (f : Int → Nat → Int) :
  Action.Related session session' Matching w (shift f x y) (shift f x' y')
  := by
  apply ofNumbers_related hx hy
  rintro w' ⟨a, b⟩
  dsimp only
  split
  · exact raiseHere trivial
  · exact pure (.number _)

theorem forceBoth_related {α : Type} {R : World τ → α → α → Prop} {f g : Value → Value → Action α}
    (hfg : ∀ (w' : World τ), w ≤ w' → ∀ u u' v v', Value.Matches w'.toPairing u u' →
      Value.Matches w'.toPairing v v' → Action.Related session session' R w' (f u v) (g u' v')) :
  Action.Related session session' R w
    (do let a ← x.force
        let b ← y.force
        f a b)
    (do let a ← x'.force
        let b ← y'.force
        g a b)
  := by
  apply (force_related hx).bind
  intro w₁ hle₁ u u' hu
  apply (force_related (hy.mono hle₁)).bind
  intro w₂ hle₂ v v' hv
  exact hfg w₂ (hle₁.trans hle₂) u u' v v' (hu.mono hle₂) hv

omit hx hy in
/-- A string and the text of a value, joined. -/
theorem joined_related {f : String → String} {v v' : Value} (hv : v.Matches w.toPairing v') :
  Action.Related session session' Matching w (do return .string (f (← v.displayed)))
    (do return .string (f (← v'.displayed)))
  := by
  apply (displayed_related hv).bind
  intro w' hle s _ hs
  cases hs
  exact pure (.string _)

theorem add_related :
  Action.Related session session' Matching w (add x y) (add x' y')
  := by
  apply forceBoth_related hx hy
  intro w₁ hle₁ u u' v v' hu hv
  have hprefix : ∀ s : String, Action.Related session session' Matching w₁
      (do return .string (s ++ (← v.displayed))) (do return .string (s ++ (← v'.displayed))) :=
    fun s => joined_related hv
  have hsuffix : ∀ s : String, Action.Related session session' Matching w₁
      (do return .string ((← u.displayed) ++ s)) (do return .string ((← u'.displayed) ++ s)) :=
    fun s => joined_related (f := (· ++ s)) hu
  cases hu with
  | string a =>
    cases hv with
    | string b => exact pure (.string _)
    | _ => exact hprefix a
  | number a =>
    cases hv with
    | number b => exact checked_related _
    | string b => exact hsuffix b
    | _ => exact raiseHere trivial
  | array elements =>
    cases hv with
    | array elements' =>
      refine pure (.array ?_)
      rw [Array.toList_append, Array.toList_append, alike_deferreds_iff]
      exact List.rel_append (alike_deferreds_iff.mp elements) (alike_deferreds_iff.mp elements')
    | string b => exact hsuffix b
    | _ => exact raiseHere trivial
  | object object =>
    cases hv with
    | object object' =>
      apply (take (Operation.Related.combine object object')).bind
      intro w₂ hle₂ o p ho
      exact pure (.object ho)
    | string b => exact hsuffix b
    | _ => exact raiseHere trivial
  | _ =>
    cases hv with
    | string b => exact hsuffix b
    | _ => exact raiseHere trivial

theorem operandsEqual_related :
  Action.Related session session' Same w (operandsEqual x y) (operandsEqual x' y')
  := by
  apply forceBoth_related hx hy
  intro w₁ hle₁ u u' v v' hu hv
  exact equal_related hu hv

theorem ordered_related (operator : BinaryOp) (accept : Ordering → Bool) :
  Action.Related session session' Matching w (ordered operator accept x y)
    (ordered operator accept x' y')
  := by
  apply forceBoth_related hx hy
  intro w₁ hle₁ u u' v v' hu hv
  apply (order_related operator hu hv).bind
  intro w₂ hle₂ ordering _ hordering
  cases hordering
  exact pure (.bool _)

theorem shortCircuit_related (deciding : Bool) :
  Action.Related session session' Matching w (shortCircuit deciding x y)
    (shortCircuit deciding x' y')
  := by
  apply (force_related hx).bind
  intro w₁ hle₁ v v' hv
  apply (expectBool_related hv Terms.agrees_rfl).bind
  intro w₂ hle₂ b _ hb
  cases hb
  split
  · exact pure (.bool _)
  · apply (force_related (hy.mono (hle₁.trans hle₂))).bind
    intro w₃ hle₃ u u' hu
    apply (expectBool_related hu Terms.agrees_rfl).bind
    intro w₄ hle₄ b' _ hb'
    cases hb'
    exact pure (.bool _)

theorem applyBinary_related (op : BinaryOp) :
  Action.Related session session' Matching w (applyBinary op x y) (applyBinary op x' y')
  := by
  cases op with
  | mul =>
    apply ofNumbers_related hx hy
    rintro w' ⟨a, b⟩
    exact checked_related _
  | div => exact divide_related hx hy _
  | mod => exact divide_related hx hy _
  | add => exact add_related hx hy
  | sub =>
    apply ofNumbers_related hx hy
    rintro w' ⟨a, b⟩
    exact checked_related _
  | shiftLeft => exact shift_related hx hy _
  | shiftRight => exact shift_related hx hy _
  | less => exact ordered_related hx hy _ _
  | lessEq => exact ordered_related hx hy _ _
  | greater => exact ordered_related hx hy _ _
  | greaterEq => exact ordered_related hx hy _ _
  | equal =>
    apply (operandsEqual_related hx hy).bind
    intro w' hle b _ hb
    cases hb
    exact pure (.bool _)
  | notEqual =>
    apply (operandsEqual_related hx hy).bind
    intro w' hle b _ hb
    cases hb
    exact pure (.bool _)
  | bitAnd => exact onWords_related hx hy _
  | bitXor => exact onWords_related hx hy _
  | bitOr => exact onWords_related hx hy _
  | and => exact shortCircuit_related hx hy _
  | or => exact shortCircuit_related hx hy _

end

theorem applyUnary_related (op : UnaryOp) {x x' : Deferred} (hx : x.Matches w.toPairing x') :
  Action.Related session session' Matching w (applyUnary op x) (applyUnary op x')
  := by
  apply (force_related hx).bind
  intro w' hle v v' hv
  cases op with
  | not =>
    cases hv with
    | bool b => exact pure (.bool _)
    | _ => exact raiseHere trivial
  | _ =>
    cases hv with
    | number a => exact pure (.number _)
    | _ => exact raiseHere trivial

/-! ### Functions of the library -/

section

variable {x x' : Deferred} (hx : x.Matches w.toPairing x')

include hx

theorem lengthOf_related :
  Action.Related session session' Matching w (lengthOf x) (lengthOf x')
  := by
  apply (force_related hx).bind
  intro w' hle v v' hv
  cases hv with
  | string s => exact pure (.number _)
  | @array xs ys elements =>
    dsimp only
    rw [size_eq_of_alike elements]
    exact pure (.number _)
  | object object =>
    dsimp only
    rw [(w'.alike object).fieldNames_eq]
    exact pure (.number _)
  | function function => cases function <;> exact pure (.number _)
  | _ => exact raiseHere trivial

theorem codepointOf_related :
  Action.Related session session' Matching w (codepointOf x) (codepointOf x')
  := by
  apply (stringArgument_related hx).bind
  intro w' hle s _ hs
  cases hs
  split
  · exact pure (.number _)
  · exact raiseHere trivial

theorem charOf_related :
  Action.Related session session' Matching w (charOf x) (charOf x')
  := by
  apply (numberArgument_related hx).bind
  intro w' hle n _ hn
  cases hn
  split
  · exact raiseHere trivial
  · dsimp only
    split
    · exact pure (.string _)
    · exact raiseHere trivial

theorem ofNumber_related (f : Number → Number) :
  Action.Related session session' Matching w (ofNumber f x) (ofNumber f x')
  := by
  apply (numberArgument_related hx).bind
  intro w' hle n _ hn
  cases hn
  exact checked_related _

variable {y y' : Deferred} (hy : y.Matches w.toPairing y')

include hy

theorem makeArray_related :
  Action.Related session session' Matching w (makeArray x y) (makeArray x' y')
  := by
  apply (numberArgument_related hx).bind
  intro w₁ hle₁ n _ hn
  cases hn
  split
  · exact raiseHere trivial
  · split
    · exact raiseHere trivial
    · apply (force_related (hy.mono hle₁)).bind
      intro w₂ hle₂ v v' hv
      apply (expectFunction_related hv Terms.agrees_rfl).bind
      intro w₃ hle₃ f g hf
      dsimp only
      split
      · exact fail (.refl trivial)
      · have hcalls : List.Forall₂ (fun s s' => Alike w₃.toPairing (.suspension s) (.suspension s'))
            ((List.range n.word.toNat).map fun i =>
              Suspension.call f [.ready (.number (.ofNat i))] .unknown)
            ((List.range n.word.toNat).map fun i =>
              Suspension.call g [.ready (.number (.ofNat i))] .unknown) := by
          rw [List.forall₂_map_left_iff, List.forall₂_map_right_iff, List.forall₂_same]
          intro i _
          exact .call Terms.agrees_rfl hf (.cons (.ready (.number _)) .nil)
        apply (shareAll_related hcalls).bind
        intro w₄ hle₄ ds ds' hds
        exact pure (.array hds)

omit hx hy in
theorem filterElements_related {f g : Function} {kept kept' elements elements' : List Deferred}
    (hf : Alike w.toPairing (.function f) (.function g))
    (hkept : Alike w.toPairing (.deferreds kept) (.deferreds kept'))
    (h : Alike w.toPairing (.deferreds elements) (.deferreds elements')) :
  Action.Related session session' Matching w (filterElements f kept elements)
    (filterElements g kept' elements')
  := by
  induction elements generalizing w kept kept' elements' with
  | nil =>
    cases h
    refine pure (.array ?_)
    rw [alike_deferreds_iff] at hkept ⊢
    exact List.rel_reverse hkept
  | cons element elements ih =>
    cases h with
    | cons head tail =>
      apply (call_related Terms.agrees_rfl hf (.cons head .nil)).bind
      intro w' hle v v' hv
      cases hv with
      | bool b =>
        cases b with
        | true => exact ih (hf.mono hle) (.cons (head.mono hle) (hkept.mono hle)) (tail.mono hle)
        | false => exact ih (hf.mono hle) (hkept.mono hle) (tail.mono hle)
      | _ => exact raiseHere trivial

theorem filterArray_related :
  Action.Related session session' Matching w (filterArray x y) (filterArray x' y')
  := by
  apply (force_related hx).bind
  intro w₁ hle₁ v v' hv
  apply (expectFunction_related hv Terms.agrees_rfl).bind
  intro w₂ hle₂ f g hf
  apply (force_related (hy.mono (hle₁.trans hle₂))).bind
  intro w₃ hle₃ u u' hu
  apply (expectArray_related hu Terms.agrees_rfl).bind
  intro w₄ hle₄ xs ys helements
  exact filterElements_related (hf.mono (hle₃.trans hle₄)) .nil helements

omit hx hy in
theorem fieldTexts_related (done : List Value) {names : List Name}
    (hdone : ∀ v ∈ done, ∃ s, v = .string s) (known : ∀ name ∈ names, w.name name) :
  Action.Related session session' Matching w (fieldTexts done names) (fieldTexts done names)
  := by
  induction names generalizing w done with
  | nil =>
    refine pure (.array ?_)
    rw [alike_deferreds_iff, List.toList_toArray, List.forall₂_map_left_iff,
      List.forall₂_map_right_iff, List.forall₂_same]
    intro v hv
    obtain ⟨s, rfl⟩ := hdone v (List.mem_reverse.mp hv)
    exact .ready (.string s)
  | cons name names ih =>
    apply (textOf_related (known name List.mem_cons_self)).bind
    intro w' hle s _ hs
    cases hs
    apply ih
    · intro v hv
      obtain rfl | hv := List.mem_cons.mp hv
      · exact ⟨s, rfl⟩
      · exact hdone v hv
    · intro other hother
      exact Pairing.name_mono hle (known other (List.mem_cons_of_mem _ hother))

theorem fieldsOf_related :
  Action.Related session session' Matching w (fieldsOf x y) (fieldsOf x' y')
  := by
  apply (force_related hx).bind
  intro w₁ hle₁ v v' hv
  apply (expectObject_related hv Terms.agrees_rfl).bind
  intro w₂ hle₂ o p ho
  apply (force_related (hy.mono (hle₁.trans hle₂))).bind
  intro w₃ hle₃ u u' hu
  apply (expectBool_related hu Terms.agrees_rfl).bind
  intro w₄ hle₄ b _ hb
  cases hb
  apply (sortedFields_related (Pairing.object_mono (hle₃.trans hle₄) ho) b).bind
  rintro w₅ hle₅ names _ ⟨rfl, known⟩
  exact fieldTexts_related [] (by simp) known

theorem hasField_related {z z' : Deferred} (hz : z.Matches w.toPairing z') :
  Action.Related session session' Matching w (hasField x y z) (hasField x' y' z')
  := by
  apply (force_related hx).bind
  intro w₁ hle₁ v v' hv
  apply (expectObject_related hv Terms.agrees_rfl).bind
  intro w₂ hle₂ o p ho
  apply (stringArgument_related (hy.mono (hle₁.trans hle₂))).bind
  intro w₃ hle₃ s _ hs
  cases hs
  apply (force_related (hz.mono ((hle₁.trans hle₂).trans hle₃))).bind
  intro w₄ hle₄ u u' hu
  apply (expectBool_related hu Terms.agrees_rfl).bind
  intro w₅ hle₅ b _ hb
  cases hb
  apply (intern_related s).bind
  rintro w₆ hle₆ name _ ⟨rfl, -⟩
  rw [(w₂.alike ho).hasField_eq]
  exact pure (.bool _)

end

theorem externalVariable_related (agrees : session.Agrees session') {name : Name}
    (known : w.name name) :
  Action.Related session session' Matching w (externalVariable name) (externalVariable name)
  := by
  apply session_bind
  rw [agrees.externals]
  split
  · apply (textOf_related known).bind
    intro w' hle s _ hs
    cases hs
    exact raiseHere trivial
  · rename_i given hgiven
    apply (take (Operation.Related.external hgiven known)).bind
    intro w' hle d d' hd
    exact force_related (.alike hd)

/-! ### Calls -/

theorem applyLibrary_related (agrees : session.Agrees session') (f : LibraryFunction)
    {ds ds' : List Deferred} (h : List.Forall₂ (Deferred.Matches w.toPairing) ds ds') :
  Option.Rel (Action.Related session session' Matching w) (applyLibrary f ds)
    (applyLibrary f ds')
  := by
  cases h with
  | nil => cases f <;> exact .none
  | cons hx h =>
  cases h with
  | nil =>
    cases f with
    | length => exact .some (lengthOf_related hx)
    | type =>
      apply Option.Rel.some
      apply (force_related hx).bind
      intro w' hle v v' hv
      rw [hv.typeName_eq]
      exact pure (.string _)
    | toString =>
      apply Option.Rel.some
      apply (force_related hx).bind
      intro w' hle v v' hv
      exact joined_related (f := id) hv
    | codepoint => exact .some (codepointOf_related hx)
    | char => exact .some (charOf_related hx)
    | floor => exact .some (ofNumber_related hx _)
    | ceil => exact .some (ofNumber_related hx _)
    | sqrt => exact .some (ofNumber_related hx _)
    | exp => exact .some (ofNumber_related hx _)
    | log => exact .some (ofNumber_related hx _)
    | extVar =>
      apply Option.Rel.some
      apply (stringArgument_related hx).bind
      intro w' hle s _ hs
      cases hs
      apply (intern_related s).bind
      rintro w'' hle' name _ ⟨rfl, known⟩
      exact externalVariable_related agrees known
    | _ => exact .none
  | cons hy h =>
  cases h with
  | nil =>
    cases f with
    | makeArray => exact .some (makeArray_related hx hy)
    | filter => exact .some (filterArray_related hx hy)
    | pow =>
      apply Option.Rel.some
      apply (numberArgument_related hx).bind
      intro w₁ hle₁ a _ ha
      cases ha
      apply (numberArgument_related (hy.mono hle₁)).bind
      intro w₂ hle₂ b _ hb
      cases hb
      exact checked_related _
    | modulo => exact .some (divide_related hx hy _)
    | primitiveEquals =>
      apply Option.Rel.some
      apply forceBoth_related hx hy
      intro w₁ hle₁ u u' v v' hu hv
      apply (primitiveEqual_related hu hv).bind
      intro w₂ hle₂ b _ hb
      cases hb
      exact pure (.bool _)
    | equals =>
      apply Option.Rel.some
      apply (operandsEqual_related hx hy).bind
      intro w' hle b _ hb
      cases hb
      exact pure (.bool _)
    | objectFieldsEx => exact .some (fieldsOf_related hx hy)
    | _ => exact .none
  | cons hz h =>
  cases h with
  | nil =>
    cases f with
    | objectHasEx => exact .some (hasField_related hx hy hz)
    | _ => exact .none
  | cons _ _ => cases f <;> exact .none

/-- A function of the library computes something for as many arguments as it has
parameters. -/
theorem applyLibrary_isSome {f : LibraryFunction} {arguments : List Deferred}
    (arity : arguments.length = (Builtin.library f).arity) :
  (applyLibrary f arguments).isSome = true
  := by
  match arguments with
  | [] => cases f <;> cases arity
  | [_] => cases f <;> first | rfl | cases arity
  | [_, _] => cases f <;> first | rfl | cases arity
  | [_, _, _] => cases f <;> first | rfl | cases arity
  | _ :: _ :: _ :: _ :: _ => cases f <;> cases arity

theorem applyBuiltin_related (agrees : session.Agrees session') (b : Builtin)
    {ds ds' : List Deferred} (arity : ds.length = b.arity)
    (h : List.Forall₂ (Deferred.Matches w.toPairing) ds ds') :
  Action.Related session session' Matching w (applyBuiltin b ds) (applyBuiltin b ds')
  := by
  cases b with
  | binary op =>
    obtain ⟨x, y, rfl⟩ := List.length_eq_two.mp arity
    obtain _ | ⟨hx, _ | ⟨hy, _ | _⟩⟩ := h
    exact applyBinary_related hx hy op
  | unary op =>
    obtain ⟨x, rfl⟩ := List.length_eq_one_iff.mp arity
    obtain _ | ⟨hx, _ | _⟩ := h
    exact applyUnary_related op hx
  | library f =>
    have hf := applyLibrary_related agrees f h
    have hsome := applyLibrary_isSome arity
    unfold applyBuiltin
    dsimp only
    obtain ⟨hn, -⟩ | ⟨x, y, hs, hs', hxy⟩ := optionRel_iff.mp hf
    · rw [hn] at hsome
      cases hsome
    · rw [hs, hs']
      exact hxy

section

variable {site site' : Location} (same_site : τ.Agrees site site')

include same_site

/-- The frames of calls at sites that agree. -/
theorem callFrame_agrees (context : FrameContext) :
  τ.Agrees (⟨site, context⟩ : Frame) ⟨site', context⟩
  := fun hexact => by rw [same_site hexact]

theorem callFunction_builtin_related (b : Builtin) {ds ds' : List Deferred}
    (h : List.Forall₂ (Deferred.Matches w.toPairing) ds ds') :
  Action.Related session session' Matching w (callFunction (.builtin b) ds site)
    (callFunction (.builtin b) ds' site')
  := by
  unfold callFunction
  dsimp only
  rw [← h.length_eq]
  split
  case isTrue => exact raise same_site trivial
  case isFalse harity =>
    apply (take (Operation.Related.count .builtinCall)).bind
    intro w' hle _ _ _
    have harity : ds.length = b.arity := by simpa using harity
    exact inFrame (callFrame_agrees same_site _)
      (Task.Related.builtin b harity (h.imp fun _ _ h => h.mono hle))

/-- A closure binds its arguments, so they have to be alike; what a builtin gets only has
to match. -/
theorem callFunction_related {f g : Function} {ds ds' : List Deferred}
    (function : Alike w.toPairing (.function f) (.function g))
    (arguments : Alike w.toPairing (.deferreds ds) (.deferreds ds')) :
  Action.Related session session' Matching w (callFunction f ds site) (callFunction g ds' site')
  := by
  have hlength := (alike_deferreds_iff.mp arguments).length_eq
  cases function with
  | builtin b => exact callFunction_builtin_related same_site b (matches_of_alike arguments)
  | @closure e e' params body env params_named body_named fits =>
    unfold callFunction
    dsimp only
    rw [← hlength]
    split
    case isTrue => exact raise same_site trivial
    case isFalse harity =>
      apply (take (Operation.Related.count .functionCall)).bind
      intro w' hle _ _ _
      have env := env.mono hle
      have harity : ds.length = params.length := by simpa using harity
      have fits : body.FitsIn τ (e.withScope (e.scope.bindValues (params.zip ds))) :=
        fits.mono (fun _ => Scope.binds_bindValues harity) id
      exact inFrame (callFrame_agrees same_site _)
        (Task.Related.evaluate (body_named.mono fun _ => Pairing.name_mono hle) fits
          (env.withScope ((alike_env_iff.mp env).1.bindValues (arguments.mono hle) params)))

end

end Jsonnet
