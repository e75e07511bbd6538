import Jsonnet.Proofs.ParallelBuiltins

/-!
# Operators and the library in parallel

What an operator or a function of the library comes to depends on akin arguments in the same way,
and so does what a function comes to that is called.
-/

namespace Jsonnet

open Action.Parallel

variable {κ : Kinship} {session session' : Session} {ask : Option Frame → Task → Prop} {w : Bond}

/-! ### Operators -/

theorem checked_parallel (x : Number) :
  Action.Parallel κ session session' ask (AkinAs κ .value) w (checked x) (checked x)
  := by
  unfold checked
  split
  · exact raiseHere _
  · split
    · exact raiseHere _
    · exact pure (.number x)

section

variable (asks : AsksData ask) {x y x' y' : Deferred} (hx : Akin κ w (.deferred x) (.deferred x'))
  (hy : Akin κ w (.deferred y) (.deferred y'))

include asks

/-- A string and the text of a value, joined. -/
theorem joined_parallel {f : String → String} {v v' : Value}
    (hv : Akin κ w (.value v) (.value v')) :
  Action.Parallel κ session session' ask (AkinAs κ .value) w
    (do return .string (f (← v.displayed))) (do return .string (f (← v'.displayed)))
  := by
  apply (displayed_parallel asks hv).bind
  intro w' hle s _ hs
  cases hs
  exact pure (.string _)

include hx hy

theorem expectNumbers_parallel :
  Action.Parallel κ session session' ask Identical w (expectNumbers x y) (expectNumbers x' y')
  := by
  apply (force_parallel asks hx).bind
  intro w₁ hle₁ v v' hv
  apply (expectNumber_parallel hv (unknown w₁)).bind
  intro w₂ hle₂ a _ ha
  cases ha
  apply (force_parallel asks (hy.mono (hle₁.trans hle₂))).bind
  intro w₃ hle₃ u u' hu
  apply (expectNumber_parallel hu (unknown w₃)).bind
  intro w₄ hle₄ b _ hb
  cases hb
  exact pure rfl

/-- A function of two numbers in parallel. -/
theorem ofNumbers_parallel {f : Number × Number → Action Value}
    (hf : ∀ (w' : Bond) (a : Number × Number),
      Action.Parallel κ session session' ask (AkinAs κ .value) w' (f a) (f a)) :
  Action.Parallel κ session session' ask (AkinAs κ .value) w (expectNumbers x y >>= f)
    (expectNumbers x' y' >>= f)
  := by
  apply (expectNumbers_parallel asks hx hy).bind
  intro w' hle a _ ha
  cases ha
  exact hf w' a

theorem divide_parallel (f : Number → Number → Number) :
  Action.Parallel κ session session' ask (AkinAs κ .value) w (divide f x y) (divide f x' y')
  := by
  apply ofNumbers_parallel asks hx hy
  rintro w' ⟨a, b⟩
  dsimp only
  split
  · exact raiseHere _
  · exact checked_parallel _

theorem onWords_parallel (f : Int → Int → Int) :
  Action.Parallel κ session session' ask (AkinAs κ .value) w (onWords f x y) (onWords f x' y')
  := by
  apply ofNumbers_parallel asks hx hy
  rintro w' ⟨a, b⟩
  exact pure (.number _)

theorem shift_parallel (f : Int → Nat → Int) :
  Action.Parallel κ session session' ask (AkinAs κ .value) w (shift f x y) (shift f x' y')
  := by
  apply ofNumbers_parallel asks hx hy
  rintro w' ⟨a, b⟩
  dsimp only
  split
  · exact raiseHere _
  · exact pure (.number _)

theorem forceBoth_parallel {α : Type} {R : Bond → α → α → Prop} {f g : Value → Value → Action α}
    (hfg : ∀ w', w ≤ w' → ∀ u u' v v', Akin κ w' (.value u) (.value u') →
      Akin κ w' (.value v) (.value v') →
      Action.Parallel κ session session' ask R w' (f u v) (g u' v')) :
  Action.Parallel κ session session' ask R w
    (do let a ← x.force
        let b ← y.force
        f a b)
    (do let a ← x'.force
        let b ← y'.force
        g a b)
  := by
  apply (force_parallel asks hx).bind
  intro w₁ hle₁ u u' hu
  apply (force_parallel asks (hy.mono hle₁)).bind
  intro w₂ hle₂ v v' hv
  exact hfg w₂ (hle₁.trans hle₂) u u' v v' (hu.mono hle₂) hv

theorem add_parallel :
  Action.Parallel κ session session' ask (AkinAs κ .value) w (add x y) (add x' y')
  := by
  apply forceBoth_parallel asks hx hy
  intro w₁ hle₁ u u' v v' hu hv
  have hprefix : ∀ s : String, Action.Parallel κ session session' ask (AkinAs κ .value) w₁
      (do return .string (s ++ (← v.displayed))) (do return .string (s ++ (← v'.displayed))) :=
    fun s => joined_parallel asks hv
  have hsuffix : ∀ s : String, Action.Parallel κ session session' ask (AkinAs κ .value) w₁
      (do return .string ((← u.displayed) ++ s)) (do return .string ((← u'.displayed) ++ s)) :=
    fun s => joined_parallel asks (f := (· ++ s)) hu
  cases hu with
  | string a =>
    cases hv with
    | string b => exact pure (.string _)
    | _ => exact hprefix a
  | number a =>
    cases hv with
    | number b => exact checked_parallel _
    | string b => exact hsuffix b
    | _ => exact raiseHere _
  | array elements =>
    cases hv with
    | array elements' =>
      refine pure (.array ?_)
      rw [Array.toList_append, Array.toList_append, Akin.deferreds_iff]
      exact List.rel_append (Akin.deferreds_iff.mp elements) (Akin.deferreds_iff.mp elements')
    | string b => exact hsuffix b
    | _ => exact raiseHere _
  | object object =>
    cases hv with
    | object object' =>
      apply (take (Operation.Akin.combine object object')).bind
      intro w₂ hle₂ o p ho
      exact pure (.object ho)
    | string b => exact hsuffix b
    | _ => exact raiseHere _
  | _ =>
    cases hv with
    | string b => exact hsuffix b
    | _ => exact raiseHere _

theorem operandsEqual_parallel :
  Action.Parallel κ session session' ask Identical w (operandsEqual x y) (operandsEqual x' y')
  := by
  apply forceBoth_parallel asks hx hy
  intro w₁ hle₁ u u' v v' hu hv
  exact equal_parallel asks hu hv

/-- Whether two operands are equal, or another function of that, as a value. -/
theorem equality_parallel (f : Bool → Bool) :
  Action.Parallel κ session session' ask (AkinAs κ .value) w
    (do return .bool (f (← operandsEqual x y))) (do return .bool (f (← operandsEqual x' y')))
  := by
  apply (operandsEqual_parallel asks hx hy).bind
  intro w' hle b _ hb
  cases hb
  exact pure (.bool _)

theorem ordered_parallel (operator : BinaryOp) (accept : Ordering → Bool) :
  Action.Parallel κ session session' ask (AkinAs κ .value) w (ordered operator accept x y)
    (ordered operator accept x' y')
  := by
  apply forceBoth_parallel asks hx hy
  intro w₁ hle₁ u u' v v' hu hv
  apply (order_parallel asks operator hu hv).bind
  intro w₂ hle₂ ordering _ hordering
  cases hordering
  exact pure (.bool _)

theorem shortCircuit_parallel (deciding : Bool) :
  Action.Parallel κ session session' ask (AkinAs κ .value) w (shortCircuit deciding x y)
    (shortCircuit deciding x' y')
  := by
  apply (force_parallel asks hx).bind
  intro w₁ hle₁ v v' hv
  apply (expectBool_parallel hv (unknown w₁)).bind
  intro w₂ hle₂ b _ hb
  cases hb
  split
  · exact pure (.bool _)
  · apply (force_parallel asks (hy.mono (hle₁.trans hle₂))).bind
    intro w₃ hle₃ u u' hu
    apply (expectBool_parallel hu (unknown w₃)).bind
    intro w₄ hle₄ b' _ hb'
    cases hb'
    exact pure (.bool _)

theorem applyBinary_parallel (op : BinaryOp) :
  Action.Parallel κ session session' ask (AkinAs κ .value) w (applyBinary op x y)
    (applyBinary op x' y')
  := by
  cases op with
  | mul =>
    apply ofNumbers_parallel asks hx hy
    rintro w' ⟨a, b⟩
    exact checked_parallel _
  | div => exact divide_parallel asks hx hy _
  | mod => exact divide_parallel asks hx hy _
  | add => exact add_parallel asks hx hy
  | sub =>
    apply ofNumbers_parallel asks hx hy
    rintro w' ⟨a, b⟩
    exact checked_parallel _
  | shiftLeft => exact shift_parallel asks hx hy _
  | shiftRight => exact shift_parallel asks hx hy _
  | less => exact ordered_parallel asks hx hy _ _
  | lessEq => exact ordered_parallel asks hx hy _ _
  | greater => exact ordered_parallel asks hx hy _ _
  | greaterEq => exact ordered_parallel asks hx hy _ _
  | equal => exact equality_parallel asks hx hy id
  | notEqual => exact equality_parallel asks hx hy not
  | bitAnd => exact onWords_parallel asks hx hy _
  | bitXor => exact onWords_parallel asks hx hy _
  | bitOr => exact onWords_parallel asks hx hy _
  | and => exact shortCircuit_parallel asks hx hy _
  | or => exact shortCircuit_parallel asks hx hy _

end

theorem applyUnary_parallel (asks : AsksData ask) (op : UnaryOp) {x x' : Deferred}
    (hx : Akin κ w (.deferred x) (.deferred x')) :
  Action.Parallel κ session session' ask (AkinAs κ .value) w (applyUnary op x) (applyUnary op x')
  := by
  apply (force_parallel asks hx).bind
  intro w' hle v v' hv
  cases op with
  | not =>
    cases hv with
    | bool b => exact pure (.bool _)
    | _ => exact raiseHere _
  | _ =>
    cases hv with
    | number a => exact pure (.number _)
    | _ => exact raiseHere _

/-! ### Functions of the library -/

section

variable (asks : AsksData ask) {x x' : Deferred} (hx : Akin κ w (.deferred x) (.deferred x'))

include asks hx

theorem lengthOf_parallel :
  Action.Parallel κ session session' ask (AkinAs κ .value) w (lengthOf x) (lengthOf x')
  := by
  apply (force_parallel asks hx).bind
  intro w' hle v v' hv
  cases hv with
  | string s => exact pure (.number _)
  | @array xs ys elements =>
    dsimp only
    rw [elements.size_eq]
    exact pure (.number _)
  | object object =>
    obtain ⟨ns, names, order⟩ := object.fieldNames false
    dsimp only
    rw [names.length_eq, order.perm.length_eq]
    exact pure (.number _)
  | function function =>
    have harity : ∀ {f g : Function}, Akin κ w' (.function f) (.function g) → f.arity = g.arity := by
      intro f g h
      cases h with
      | closure env params body outer => exact params.length_eq
      | builtin b => rfl
    dsimp only
    rw [harity function]
    exact pure (.number _)
  | _ => exact raiseHere _

theorem codepointOf_parallel :
  Action.Parallel κ session session' ask (AkinAs κ .value) w (codepointOf x) (codepointOf x')
  := by
  apply (stringArgument_parallel asks hx).bind
  intro w' hle s _ hs
  cases hs
  split
  · exact pure (.number _)
  · exact raiseHere _

theorem charOf_parallel :
  Action.Parallel κ session session' ask (AkinAs κ .value) w (charOf x) (charOf x')
  := by
  apply (numberArgument_parallel asks hx).bind
  intro w' hle n _ hn
  cases hn
  split
  · exact raiseHere _
  · dsimp only
    split
    · exact pure (.string _)
    · exact raiseHere _

theorem ofNumber_parallel (f : Number → Number) :
  Action.Parallel κ session session' ask (AkinAs κ .value) w (ofNumber f x) (ofNumber f x')
  := by
  apply (numberArgument_parallel asks hx).bind
  intro w' hle n _ hn
  cases hn
  exact checked_parallel _

variable {y y' : Deferred} (hy : Akin κ w (.deferred y) (.deferred y'))

include hy

theorem makeArray_parallel :
  Action.Parallel κ session session' ask (AkinAs κ .value) w (makeArray x y) (makeArray x' y')
  := by
  apply (numberArgument_parallel asks hx).bind
  intro w₁ hle₁ n _ hn
  cases hn
  split
  · exact raiseHere _
  · split
    · exact raiseHere _
    · apply (force_parallel asks (hy.mono hle₁)).bind
      intro w₂ hle₂ v v' hv
      apply (expectFunction_parallel hv (unknown w₂)).bind
      intro w₃ hle₃ f g hf
      dsimp only
      split
      · exact fail (.breakdown _)
      · have hcalls : List.Forall₂ (AkinAs κ .suspension w₃)
            ((List.range n.word.toNat).map fun i =>
              Suspension.call f [.ready (.number (.ofNat i))] .unknown)
            ((List.range n.word.toNat).map fun i =>
              Suspension.call g [.ready (.number (.ofNat i))] .unknown) := by
          rw [List.forall₂_map_left_iff, List.forall₂_map_right_iff, List.forall₂_same]
          intro i _
          exact .call hf (.cons (.ready (.number _)) .nil) (unknown w₃)
        apply (shareAll_parallel hcalls).bind
        intro w₄ hle₄ ds ds' hds
        exact pure (.array hds)

omit hx hy in
theorem filterElements_parallel {f g : Function} {kept kept' elements elements' : List Deferred}
    (hf : Akin κ w (.function f) (.function g))
    (hkept : Akin κ w (.deferreds kept) (.deferreds kept'))
    (h : Akin κ w (.deferreds elements) (.deferreds elements')) :
  Action.Parallel κ session session' ask (AkinAs κ .value) w (filterElements f kept elements)
    (filterElements g kept' elements')
  := by
  induction elements generalizing w kept kept' elements' with
  | nil =>
    cases h
    refine pure (.array ?_)
    rw [Akin.deferreds_iff] at hkept ⊢
    exact List.rel_reverse hkept
  | cons element elements ih =>
    cases h with
    | cons head tail =>
      apply (request (asks.call _ _ _)
        (Task.Akin.call hf (.cons head .nil) (unknown w))).bind
      intro w' hle v v' hv
      cases hv with
      | bool b =>
        cases b with
        | true => exact ih (hf.mono hle) (.cons (head.mono hle) (hkept.mono hle)) (tail.mono hle)
        | false => exact ih (hf.mono hle) (hkept.mono hle) (tail.mono hle)
      | _ => exact raiseHere _

theorem filterArray_parallel :
  Action.Parallel κ session session' ask (AkinAs κ .value) w (filterArray x y) (filterArray x' y')
  := by
  apply (force_parallel asks hx).bind
  intro w₁ hle₁ v v' hv
  apply (expectFunction_parallel hv (unknown w₁)).bind
  intro w₂ hle₂ f g hf
  apply (force_parallel asks (hy.mono (hle₁.trans hle₂))).bind
  intro w₃ hle₃ u u' hu
  apply (expectArray_parallel hu (unknown w₃)).bind
  intro w₄ hle₄ xs ys helements
  exact filterElements_parallel asks (hf.mono (hle₃.trans hle₄)) .nil helements

omit asks hx hy in
theorem fieldTexts_parallel (done : List Value) {ns ns' : List Name}
    (hdone : ∀ v ∈ done, ∃ s, v = .string s) (names : List.Forall₂ w.name ns ns') :
  Action.Parallel κ session session' ask (AkinAs κ .value) w (fieldTexts done ns)
    (fieldTexts done ns')
  := by
  induction ns generalizing w done ns' with
  | nil =>
    cases names
    refine pure (.array ?_)
    rw [Akin.deferreds_iff, List.toList_toArray, List.forall₂_map_left_iff,
      List.forall₂_map_right_iff, List.forall₂_same]
    intro v hv
    obtain ⟨s, rfl⟩ := hdone v (List.mem_reverse.mp hv)
    exact .ready (.string s)
  | cons n ns ih =>
    cases names with
    | cons name names =>
      apply (textOf_parallel name).bind
      intro w' hle s _ hs
      cases hs
      refine ih _ ?_ (Bond.names_mono hle names)
      intro v hv
      obtain rfl | hv := List.mem_cons.mp hv
      · exact ⟨s, rfl⟩
      · exact hdone v hv

theorem fieldsOf_parallel :
  Action.Parallel κ session session' ask (AkinAs κ .value) w (fieldsOf x y) (fieldsOf x' y')
  := by
  apply (force_parallel asks hx).bind
  intro w₁ hle₁ v v' hv
  apply (expectObject_parallel hv (unknown w₁)).bind
  intro w₂ hle₂ o p ho
  apply (force_parallel asks (hy.mono (hle₁.trans hle₂))).bind
  intro w₃ hle₃ u u' hu
  apply (expectBool_parallel hu (unknown w₃)).bind
  intro w₄ hle₄ b _ hb
  cases hb
  apply (sortedFields_parallel (ho.mono (hle₃.trans hle₄)) b).bind
  intro w₅ hle₅ ns ns' names
  exact fieldTexts_parallel [] (by simp) names

theorem hasField_parallel {z z' : Deferred} (hz : Akin κ w (.deferred z) (.deferred z')) :
  Action.Parallel κ session session' ask (AkinAs κ .value) w (hasField x y z) (hasField x' y' z')
  := by
  apply (force_parallel asks hx).bind
  intro w₁ hle₁ v v' hv
  apply (expectObject_parallel hv (unknown w₁)).bind
  intro w₂ hle₂ o p ho
  apply (stringArgument_parallel asks (hy.mono (hle₁.trans hle₂))).bind
  intro w₃ hle₃ s _ hs
  cases hs
  apply (force_parallel asks (hz.mono ((hle₁.trans hle₂).trans hle₃))).bind
  intro w₄ hle₄ u u' hu
  apply (expectBool_parallel hu (unknown w₄)).bind
  intro w₅ hle₅ b _ hb
  cases hb
  apply (intern_parallel s).bind
  intro w₆ hle₆ n n' name
  have ho := ho.mono (((hle₃.trans hle₄).trans hle₅).trans hle₆)
  rw [ho.hasField name]
  exact pure (.bool _)

end

/-- Names that stand for each other are given akin things in lists of the same length. -/
theorem lookup_given {w : Bond} {xs ys : List (Name × External)} {n n' : Name} (name : w.name n n')
    (h : List.Forall₂ (fun x y => w.name x.1 y.1 ∧ x.2 = y.2) xs ys) :
  xs.lookup n = ys.lookup n'
  := by
  induction h with
  | nil => rfl
  | @cons x y xs ys head tail ih =>
    obtain ⟨m, given⟩ := x
    obtain ⟨m', given'⟩ := y
    obtain ⟨hm, hgiven⟩ := head
    cases hgiven
    rw [List.lookup, List.lookup, Bond.beq_eq name hm, ih]

theorem externalVariable_parallel (asks : AsksData ask) (sessions : session.Akin κ w session')
    {n n' : Name} (name : w.name n n') :
  Action.Parallel κ session session' ask (AkinAs κ .value) w (externalVariable n)
    (externalVariable n')
  := by
  apply session_bind
  rw [lookup_given name (List.rel_reverse sessions.externals)]
  split
  · apply (textOf_parallel name).bind
    intro w' hle s _ hs
    cases hs
    exact raiseHere _
  · apply (take (Operation.Akin.external name _)).bind
    intro w' hle d d' hd
    exact force_parallel asks hd

/-! ### Calls -/

theorem applyLibrary_parallel (asks : AsksData ask) (sessions : session.Akin κ w session')
    (f : LibraryFunction) {ds ds' : List Deferred} (h : Akin κ w (.deferreds ds) (.deferreds ds')) :
  Option.Rel (Action.Parallel κ session session' ask (AkinAs κ .value) w) (applyLibrary f ds)
    (applyLibrary f ds')
  := by
  cases h with
  | nil => cases f <;> exact .none
  | cons hx h =>
  cases h with
  | nil =>
    cases f with
    | length => exact .some (lengthOf_parallel asks hx)
    | type =>
      apply Option.Rel.some
      apply (force_parallel asks hx).bind
      intro w' hle v v' hv
      rw [hv.typeName_eq]
      exact pure (.string _)
    | toString =>
      apply Option.Rel.some
      apply (force_parallel asks hx).bind
      intro w' hle v v' hv
      exact joined_parallel asks (f := id) hv
    | codepoint => exact .some (codepointOf_parallel asks hx)
    | char => exact .some (charOf_parallel asks hx)
    | floor => exact .some (ofNumber_parallel asks hx _)
    | ceil => exact .some (ofNumber_parallel asks hx _)
    | sqrt => exact .some (ofNumber_parallel asks hx _)
    | exp => exact .some (ofNumber_parallel asks hx _)
    | log => exact .some (ofNumber_parallel asks hx _)
    | extVar =>
      apply Option.Rel.some
      apply (stringArgument_parallel asks hx).bind
      intro w₁ hle₁ s _ hs
      cases hs
      apply (intern_parallel s).bind
      intro w₂ hle₂ n n' name
      exact externalVariable_parallel asks (sessions.mono (hle₁.trans hle₂)) name
    | _ => exact .none
  | cons hy h =>
  cases h with
  | nil =>
    cases f with
    | makeArray => exact .some (makeArray_parallel asks hx hy)
    | filter => exact .some (filterArray_parallel asks hx hy)
    | pow =>
      apply Option.Rel.some
      apply (numberArgument_parallel asks hx).bind
      intro w₁ hle₁ a _ ha
      cases ha
      apply (numberArgument_parallel asks (hy.mono hle₁)).bind
      intro w₂ hle₂ b _ hb
      cases hb
      exact checked_parallel _
    | modulo => exact .some (divide_parallel asks hx hy _)
    | primitiveEquals =>
      apply Option.Rel.some
      apply forceBoth_parallel asks hx hy
      intro w₁ hle₁ u u' v v' hu hv
      apply (primitiveEqual_parallel hu hv).bind
      intro w₂ hle₂ b _ hb
      cases hb
      exact pure (.bool _)
    | equals => exact .some (equality_parallel asks hx hy id)
    | objectFieldsEx => exact .some (fieldsOf_parallel asks hx hy)
    | _ => exact .none
  | cons hz h =>
  cases h with
  | nil =>
    cases f with
    | objectHasEx => exact .some (hasField_parallel asks hx hy hz)
    | _ => exact .none
  | cons _ _ => cases f <;> exact .none

theorem applyBuiltin_parallel (asks : AsksData ask) (sessions : session.Akin κ w session')
    (b : Builtin) {ds ds' : List Deferred} (h : Akin κ w (.deferreds ds) (.deferreds ds')) :
  Action.Parallel κ session session' ask (AkinAs κ .value) w (applyBuiltin b ds)
    (applyBuiltin b ds')
  := by
  have hwrong : Action.Parallel κ session session' ask (AkinAs κ Item.value) w
      (Action.fail (.internal s!"builtin {b.name} registered with the wrong arity"))
      (Action.fail (.internal s!"builtin {b.name} registered with the wrong arity")) :=
    fail (.internal _)
  cases b with
  | binary op =>
    cases h with
    | nil => exact hwrong
    | cons hx h =>
    cases h with
    | nil => exact hwrong
    | cons hy h =>
    cases h with
    | nil => exact applyBinary_parallel asks hx hy op
    | cons _ _ => exact hwrong
  | unary op =>
    cases h with
    | nil => exact hwrong
    | cons hx h =>
    cases h with
    | nil => exact applyUnary_parallel asks op hx
    | cons _ _ => exact hwrong
  | library f =>
    unfold applyBuiltin
    dsimp only
    obtain ⟨hn, hn'⟩ | ⟨x, y, hs, hs', hxy⟩ :=
      optionRel_iff.mp (applyLibrary_parallel asks sessions f h)
    · rw [hn, hn']
      exact hwrong
    · rw [hs, hs']
      exact hxy

section

variable (frame : ∀ frame task, ask (some frame) task) {l l' : Location} (site : l.Akin w.name l')

include frame site

/-- A closure that is called evaluates its body; what is bound to dead parameters does not
matter. -/
theorem callClosure_parallel {live inner : Name → Prop} {e e' : Env} {ps ps' : List Name}
    {c c' : Code} {ds ds' : List Deferred} (env : Akin κ w (.env live e) (.env live e'))
    (params : List.Forall₂ w.name ps ps') (body : κ.code w.name inner c c')
    (outer : ∀ n, inner n → n ∈ ps ∨ live n) (length : ds.length = ds'.length)
    (arguments : ds.length = ps.length → Partly (AkinAs κ .deferred w) (ps.map inner) ds ds') :
  Action.Parallel κ session session' ask (AkinAs κ .value) w
    (callFunction (.closure e ps c) ds l) (callFunction (.closure e' ps' c') ds' l')
  := by
  unfold callFunction
  dsimp only
  rw [← length, ← params.length_eq]
  split
  case isTrue => exact raise _ site
  case isFalse harity =>
    apply (take (.count .functionCall)).bind
    intro w' hle _ _ _
    have harity : ds.length = ps.length := by simpa using harity
    have env := env.mono hle
    have arguments := (arguments harity).imp fun _ _ h => h.mono hle
    exact inFrame (frame _ _) ⟨site.mono hle.1, .function⟩
      (Task.Akin.evaluate (env.withScope ((Akin.env_iff.mp env).1.bindValues
        (Bond.names_mono hle params) arguments outer)) (κ.mono body hle.1))

theorem callFunction_parallel {f g : Function} {ds ds' : List Deferred}
    (function : Akin κ w (.function f) (.function g))
    (arguments : Akin κ w (.deferreds ds) (.deferreds ds')) :
  Action.Parallel κ session session' ask (AkinAs κ .value) w (callFunction f ds l)
    (callFunction g ds' l')
  := by
  have hlist := Akin.deferreds_iff.mp arguments
  cases function with
  | closure env params body outer =>
    apply callClosure_parallel frame site env params body outer hlist.length_eq
    intro harity
    apply Partly.of_forall₂ hlist
    rw [List.length_map, harity]
  | builtin b =>
    unfold callFunction
    dsimp only
    rw [← hlist.length_eq]
    split
    case isTrue => exact raise _ site
    case isFalse =>
      apply (take (.count .builtinCall)).bind
      intro w' hle _ _ _
      exact inFrame (frame _ _) ⟨site.mono hle.1, .builtin b.name⟩
        (Task.Akin.builtin b (arguments.mono hle))

end

end Jsonnet
