import Jsonnet.Eval.Run
import Jsonnet.Proofs.Making

/-!
# Actions make proper data

Every action takes operations and asks for tasks with proper data only, as long as what it is
given is proper, and then its result is proper.
-/

namespace Jsonnet

/-! ### Tasks -/

/-- Whether a task is given proper data. -/
def Task.Takes (S : Standard) (session : Session) (made : List Object) : Task → Prop
  | .evaluate code env => Proper S made (.env env) ∧ S.code code
  | .force _ => True
  | .call f arguments _ =>
    Proper S made (.function f) ∧ ∀ d ∈ arguments, Proper S made (.deferred d)
  | .builtin _ arguments => ∀ d ∈ arguments, Proper S made (.deferred d)
  | .check o | .readField o _ _ _ => o.MadeIn made
  | .field o l depth _ _ => o.MadeIn made ∧ (l, depth) ∈ o.leaves
  | .document v => Proper S made (.value v)
  | .equal x y | .order _ x y => Proper S made (.value x) ∧ Proper S made (.value y)
  | .program code | .output code => session.library.MadeIn made ∧ S.code code

/-- Whether the result of a task is proper. -/
def Task.Yields (S : Standard) (made : List Object) : (task : Task) → task.Result → Prop
  | .evaluate .., v | .force _, v | .call .., v | .builtin .., v | .readField .., v
  | .field .., v | .program _, v => Proper S made (.value v)
  | .check _, _ | .document _, _ | .equal .., _ | .order .., _ | .output _, _ => True

/-! ### Computations -/

/-- The computations that take operations and ask for tasks with proper data only, as long as
what they get back is proper, and whose results have a property. -/
inductive Progress.Makes (S : Standard) (session : Session) {α : Type}
    (R : List Object → α → Prop) : List Object → Progress α → Prop where
  | finished {made : List Object} {r : α} (result : R made r) :
    Makes S session R made (.finished r)
  | step {made : List Object} {operation : Operation} {next : operation.Result → Progress α}
      (takes : operation.Takes S session made)
      (goes : ∀ more, made <+: more → ∀ r, operation.Yields S more r →
        Makes S session R more (next r)) :
    Makes S session R made (.step operation next)
  | wait {made : List Object} {frame? : Option Frame} {task : Task}
      {next : task.Result → Progress α} (takes : task.Takes S session made)
      (goes : ∀ more, made <+: more → ∀ r, task.Yields S more r →
        Makes S session R more (next r)) :
    Makes S session R made (.wait frame? task next)

/-- The actions whose computations make proper data. -/
def Action.Makes (S : Standard) (session : Session) {α : Type} (R : List Object → α → Prop)
    (made : List Object) (x : Action α) : Prop :=
  (x session).Makes S session R made

/-- A computation that goes on makes proper data in both its parts. -/
theorem Progress.Makes.bind {S : Standard} {session : Session} {α β : Type}
    {R : List Object → α → Prop} {T : List Object → β → Prop} {made : List Object}
    {p : Progress α} {f : α → Progress β} (h : p.Makes S session R made)
    (goes : ∀ more, made <+: more → ∀ r, R more r → (f r).Makes S session T more) :
  (p.bind f).Makes S session T made
  := by
  induction h with
  | finished result => exact goes _ (List.prefix_refl _) _ result
  | step takes _ ih =>
    refine .step takes ?_
    intro more hle r hr
    exact ih more hle r hr fun more' hle' => goes more' (hle.trans hle')
  | wait takes _ ih =>
    refine .wait takes ?_
    intro more hle r hr
    exact ih more hle r hr fun more' hle' => goes more' (hle.trans hle')

namespace Action.Makes

variable {S : Standard} {session : Session} {α β : Type} {R : List Object → α → Prop}
  {T : List Object → β → Prop} {made : List Object}

theorem pure {r : α} (h : R made r) :
  Action.Makes S session R made (Pure.pure r)
  := .finished h

theorem bind {x : Action α} {f : α → Action β} (h : x.Makes S session R made)
    (goes : ∀ more, made <+: more → ∀ r, R more r → (f r).Makes S session T more) :
  (x >>= f).Makes S session T made
  := Progress.Makes.bind h goes

theorem take (operation : Operation) (h : operation.Takes S session made) :
  (Action.take operation).Makes S session (fun made => operation.Yields S made) made
  := .step h fun _ _ _ hr => .finished hr

theorem request (task : Task) (h : task.Takes S session made) :
  (Action.request task).Makes S session (fun made => task.Yields S made) made
  := .wait h fun _ _ _ hr => .finished hr

theorem inFrame (frame : Frame) (task : Task) (h : task.Takes S session made) :
  (Action.inFrame frame task).Makes S session (fun made => task.Yields S made) made
  := .wait h fun _ _ _ hr => .finished hr

/-- Going on with the session. -/
theorem session_bind {f : Session → Action β} (h : (f session).Makes S session T made) :
  (Action.session >>= f).Makes S session T made
  := h

theorem fail (failure : Failure) (h : S.failure failure) :
  (Action.fail failure : Action α).Makes S session R made
  := .step h fun _ _ r _ => r.elim

theorem raise (cause : Cause) (site : Location)
    (h : (Failure.runtime cause none).isOverflow = false) :
  (Action.raise cause site : Action α).Makes S session R made
  := .step h fun _ _ r _ => r.elim

/-- What is made may be described in another way. -/
theorem imp {T : List Object → α → Prop} {x : Action α} (h : x.Makes S session R made)
    (hRT : ∀ more r, R more r → T more r) :
  x.Makes S session T made
  := by
  rw [← bind_pure x]
  exact h.bind fun more _ r hr => pure (hRT more r hr)

end Action.Makes

open Action.Makes

section

variable {S : Standard} {session : Session} {made : List Object}

/-! ### Deferred values -/

theorem run_makes {s : Suspension} (h : Proper S made (.suspension s)) :
  s.run.Makes S session (ProperValue S) made
  := by
  cases h with
  | code env code =>
    apply (take (.count .thunk) trivial).bind
    intro more hle _ _
    exact inFrame _ (.evaluate _ _) ⟨env.mono hle, code⟩
  | call function arguments => exact request (.call _ _ _) ⟨function, arguments⟩

theorem force_makes {d : Deferred} (h : Proper S made (.deferred d)) :
  d.force.Makes S session (ProperValue S) made
  := by
  cases h with
  | ready value => exact pure value
  | suspended suspension => exact run_makes suspension
  | shared t => exact request (.force t) trivial
  | failed failure => exact fail _ failure

section

variable {v : Value} (h : Proper S made (.value v)) (site : Location)

theorem expectNumber_makes (v : Value) :
  (v.expectNumber site).Makes S session Anything made
  := by
  cases v with
  | number x => exact pure trivial
  | _ => exact raise _ _ rfl

theorem expectString_makes (v : Value) :
  (v.expectString site).Makes S session Anything made
  := by
  cases v with
  | string s => exact pure trivial
  | _ => exact raise _ _ rfl

theorem expectBool_makes (v : Value) :
  (v.expectBool site).Makes S session Anything made
  := by
  cases v with
  | bool b => exact pure trivial
  | _ => exact raise _ _ rfl

include h

theorem expectArray_makes :
  (v.expectArray site).Makes S session (fun made elements => ProperElements S made elements.toList) made
  := by
  cases h with
  | array memoised inside => exact pure fun d hd => ⟨memoised d hd, inside d hd⟩
  | _ => exact raise _ _ rfl

theorem expectFunction_makes :
  (v.expectFunction site).Makes S session (fun made f => Proper S made (.function f)) made
  := by
  cases h with
  | function function => exact pure function
  | _ => exact raise _ _ rfl

theorem expectObject_makes :
  (v.expectObject site).Makes S session (fun made o => o.MadeIn made) made
  := by
  cases h with
  | object object => exact pure object
  | _ => exact raise _ _ rfl

end

section

variable {d : Deferred} (h : Proper S made (.deferred d))

include h

theorem numberArgument_makes :
  (numberArgument d).Makes S session Anything made
  := by
  apply (force_makes h).bind
  intro more hle v hv
  exact expectNumber_makes _ v

theorem stringArgument_makes :
  (stringArgument d).Makes S session Anything made
  := by
  apply (force_makes h).bind
  intro more hle v hv
  exact expectString_makes _ v

end

/-! ### Output -/

theorem elementDocuments_makes (done : List Document) {ds : List Deferred}
    (h : ∀ d ∈ ds, Proper S made (.deferred d)) :
  (elementDocuments done ds).Makes S session Anything made
  := by
  induction ds generalizing made done with
  | nil => exact pure trivial
  | cons d ds ih =>
    apply (force_makes (h d List.mem_cons_self)).bind
    intro m₁ hle₁ v hv
    apply (request (.document v) hv).bind
    intro m₂ hle₂ document _
    exact ih _ fun e he => (h e (List.mem_cons_of_mem _ he)).mono (hle₁.trans hle₂)

theorem fieldDocuments_makes {o : Object} (ho : o.MadeIn made) (done : List (String × Document))
    (names : List Name) :
  (fieldDocuments o done names).Makes S session Anything made
  := by
  induction names generalizing made done with
  | nil => exact pure trivial
  | cons name names ih =>
    apply (take (.text name) trivial).bind
    intro m₁ hle₁ key _
    apply (request (.readField o 0 name .unknown) (ho.mono hle₁)).bind
    intro m₂ hle₂ v hv
    apply (request (.document v) hv).bind
    intro m₃ hle₃ document _
    exact ih (((ho.mono hle₁).mono hle₂).mono hle₃) _

theorem computeDocument_makes {v : Value} (h : Proper S made (.value v)) :
  (computeDocument v).Makes S session Anything made
  := by
  cases h with
  | array _ inside =>
    apply (elementDocuments_makes [] inside).bind
    intro more hle documents _
    exact pure trivial
  | @object o object =>
    apply (request (.check o) object).bind
    intro m₁ hle₁ _ _
    apply (take (.sort (o.fieldNames false)) trivial).bind
    intro m₂ hle₂ names _
    apply (fieldDocuments_makes ((object.mono hle₁).mono hle₂) [] names).bind
    intro m₃ hle₃ documents _
    exact pure trivial
  | function _ => exact raise _ _ rfl
  | _ => exact pure trivial

theorem manifest_makes (layout : Layout) {v : Value} (h : Proper S made (.value v)) :
  (v.manifest layout).Makes S session Anything made
  := by
  apply (request (.document v) h).bind
  intro more hle document _
  exact pure trivial

theorem displayed_makes {v : Value} (h : Proper S made (.value v)) :
  v.displayed.Makes S session Anything made
  := by
  have hmanifest : (v.manifest .singleLine).Makes S session Anything made :=
    manifest_makes .singleLine h
  cases v with
  | string s => exact pure trivial
  | _ => exact hmanifest

/-! ### Comparison -/

theorem elementsEqual_makes {xs ys : List Deferred} (hx : ∀ d ∈ xs, Proper S made (.deferred d))
    (hy : ∀ d ∈ ys, Proper S made (.deferred d)) :
  (elementsEqual xs ys).Makes S session Anything made
  := by
  induction xs generalizing made ys with
  | nil => cases ys <;> exact pure trivial
  | cons x xs ih =>
    cases ys with
    | nil => exact pure trivial
    | cons y ys =>
      apply (force_makes (hx x List.mem_cons_self)).bind
      intro m₁ hle₁ u hu
      apply (force_makes ((hy y List.mem_cons_self).mono hle₁)).bind
      intro m₂ hle₂ v hv
      apply (request (.equal u v) ⟨Proper.mono hu hle₂, hv⟩).bind
      intro m₃ hle₃ same _
      have hle := (hle₁.trans hle₂).trans hle₃
      cases same with
      | true =>
        exact ih (fun d hd => (hx d (List.mem_cons_of_mem _ hd)).mono hle)
          fun d hd => (hy d (List.mem_cons_of_mem _ hd)).mono hle
      | false => exact pure trivial

theorem fieldsEqual_makes {o p : Object} (ho : o.MadeIn made) (hp : p.MadeIn made)
    (names : List Name) :
  (fieldsEqual o p names).Makes S session Anything made
  := by
  induction names generalizing made with
  | nil => exact pure trivial
  | cons name names ih =>
    apply (request (.readField o 0 name .unknown) ho).bind
    intro m₁ hle₁ u hu
    apply (request (.readField p 0 name .unknown) (hp.mono hle₁)).bind
    intro m₂ hle₂ v hv
    apply (request (.equal u v) ⟨Proper.mono hu hle₂, hv⟩).bind
    intro m₃ hle₃ same _
    have hle := (hle₁.trans hle₂).trans hle₃
    cases same with
    | true => exact ih (ho.mono hle) (hp.mono hle)
    | false => exact pure trivial

section

variable {x y : Value} (hx : Proper S made (.value x)) (hy : Proper S made (.value y))

include hx hy

theorem computeEqual_makes :
  (computeEqual x y).Makes S session Anything made
  := by
  cases hx with
  | array _ inside =>
    cases hy with
    | array _ inside' =>
      rw [computeEqual]
      split
      · exact pure trivial
      · exact elementsEqual_makes inside inside'
    | _ => exact pure trivial
  | @object o object =>
    cases hy with
    | @object p object' =>
      apply (take (.sort (o.fieldNames false)) trivial).bind
      intro m₁ hle₁ names _
      apply (take (.sort (p.fieldNames false)) trivial).bind
      intro m₂ hle₂ names' _
      have hle := hle₁.trans hle₂
      split
      · exact pure trivial
      · exact fieldsEqual_makes (object.mono hle) (object'.mono hle) names
    | _ => exact pure trivial
  | function _ =>
    cases hy with
    | function _ => exact raise _ _ rfl
    | _ => exact pure trivial
  | _ => cases hy <;> exact pure trivial

omit hx hy in
theorem primitiveEqual_makes (x y : Value) :
  (primitiveEqual x y).Makes S session Anything made
  := by
  unfold primitiveEqual
  split
  · exact pure trivial
  · cases x <;> cases y <;> first | exact pure trivial | exact raise _ _ rfl

omit hx hy in
theorem orderElements_makes (operator : BinaryOp) {xs ys : List Deferred}
    (hx : ∀ d ∈ xs, Proper S made (.deferred d)) (hy : ∀ d ∈ ys, Proper S made (.deferred d)) :
  (orderElements operator xs ys).Makes S session Anything made
  := by
  induction xs generalizing made ys with
  | nil => cases ys <;> exact pure trivial
  | cons x xs ih =>
    cases ys with
    | nil => exact pure trivial
    | cons y ys =>
      apply (force_makes (hx x List.mem_cons_self)).bind
      intro m₁ hle₁ u hu
      apply (force_makes ((hy y List.mem_cons_self).mono hle₁)).bind
      intro m₂ hle₂ v hv
      apply (request (.order operator u v) ⟨Proper.mono hu hle₂, hv⟩).bind
      intro m₃ hle₃ ordering _
      have hle := (hle₁.trans hle₂).trans hle₃
      cases ordering with
      | eq =>
        exact ih (fun d hd => (hx d (List.mem_cons_of_mem _ hd)).mono hle)
          fun d hd => (hy d (List.mem_cons_of_mem _ hd)).mono hle
      | _ => exact pure trivial

theorem computeOrder_makes (operator : BinaryOp) :
  (computeOrder operator x y).Makes S session Anything made
  := by
  cases hx with
  | array _ inside =>
    cases hy with
    | array _ inside' => exact orderElements_makes operator inside inside'
    | _ => exact raise _ _ rfl
  | _ => cases hy <;> first | exact pure trivial | exact raise _ _ rfl

end

/-! ### Operators -/

theorem checked_makes (x : Number) :
  (checked x).Makes S session (ProperValue S) made
  := by
  unfold checked
  split
  case isTrue => exact raise _ _ rfl
  case isFalse hnan =>
    split
    case isTrue => exact raise _ _ rfl
    case isFalse hinfinite =>
      have finite := Number.finite_iff.mpr ⟨Bool.eq_false_of_not_eq_true hnan,
        Bool.eq_false_of_not_eq_true hinfinite⟩
      exact pure (.number (S.finite finite))

/-- The number of an integer of 64 bits. -/
theorem ofInt_makes {i : Int} (h : Number.IsWord i) :
  Action.Makes S session (ProperValue S) made (Pure.pure (Value.number (.ofInt i)))
  := pure (.number (S.finite (Number.finite_ofInt h)))

section

variable {x y : Deferred} (hx : Proper S made (.deferred x)) (hy : Proper S made (.deferred y))

include hx hy

/-- A function of two numbers makes a proper value if it does for all numbers. -/
theorem ofNumbers_makes {f : Number × Number → Action Value}
    (hf : ∀ (more : List Object) (a : Number × Number), (f a).Makes S session (ProperValue S) more) :
  (expectNumbers x y >>= f).Makes S session (ProperValue S) made
  := by
  have numbers : (expectNumbers x y).Makes S session Anything made := by
    apply (force_makes hx).bind
    intro m₁ hle₁ u hu
    apply (expectNumber_makes _ u).bind
    intro m₂ hle₂ a _
    apply (force_makes (hy.mono (hle₁.trans hle₂))).bind
    intro m₃ hle₃ v hv
    apply (expectNumber_makes _ v).bind
    intro m₄ hle₄ b _
    exact pure trivial
  apply numbers.bind
  intro more hle a _
  exact hf more a

theorem divide_makes (f : Number → Number → Number) :
  (divide f x y).Makes S session (ProperValue S) made
  := by
  apply ofNumbers_makes hx hy
  rintro more ⟨a, b⟩
  dsimp only
  split
  · exact raise _ _ rfl
  · exact checked_makes _

theorem onWords_makes {f : Int → Int → Int} (hf : KeepsWords f) :
  (onWords f x y).Makes S session (ProperValue S) made
  := by
  apply ofNumbers_makes hx hy
  rintro more ⟨a, b⟩
  exact ofInt_makes (hf _ _ a.isWord_word)

theorem shift_makes {f : Int → Nat → Int} (hf : KeepsWords f) :
  (shift f x y).Makes S session (ProperValue S) made
  := by
  apply ofNumbers_makes hx hy
  rintro more ⟨a, b⟩
  dsimp only
  split
  · exact raise _ _ rfl
  · exact ofInt_makes (hf _ _ a.isWord_word)

/-- A computation from two values is proper if it is for proper values. -/
theorem forceBoth_makes {α : Type} {R : List Object → α → Prop} {f : Value → Value → Action α}
    (hf : ∀ more, made <+: more → ∀ u v, Proper S more (.value u) → Proper S more (.value v) →
      (f u v).Makes S session R more) :
  Action.Makes S session R made
    (do let a ← x.force
        let b ← y.force
        f a b)
  := by
  apply (force_makes hx).bind
  intro m₁ hle₁ u hu
  apply (force_makes (hy.mono hle₁)).bind
  intro m₂ hle₂ v hv
  exact hf m₂ (hle₁.trans hle₂) u v (Proper.mono hu hle₂) hv

omit hx hy in
/-- A string and the text of a value, joined. -/
theorem joined_makes (f : String → String) {v : Value} (hv : Proper S made (.value v)) :
  Action.Makes S session (ProperValue S) made (do return .string (f (← v.displayed)))
  := by
  apply (displayed_makes hv).bind
  intro more hle s _
  exact pure (.string _)

theorem add_makes :
  (add x y).Makes S session (ProperValue S) made
  := by
  apply forceBoth_makes hx hy
  intro m hle u v hu hv
  have hprefix : ∀ s : String,
      Action.Makes S session (ProperValue S) m (do return .string (s ++ (← v.displayed))) :=
    fun s => joined_makes (s ++ ·) hv
  have hsuffix : ∀ s : String,
      Action.Makes S session (ProperValue S) m (do return .string ((← u.displayed) ++ s)) :=
    fun s => joined_makes (· ++ s) hu
  cases hu with
  | string a =>
    cases hv with
    | string b => exact pure (.string _)
    | _ => exact hprefix a
  | number a =>
    cases hv with
    | number b => exact checked_makes _
    | string b => exact hsuffix b
    | _ => exact raise _ _ rfl
  | array memoised inside =>
    cases hv with
    | array memoised' inside' =>
      refine pure (.array ?_ ?_)
      · intro d hd
        rw [Array.toList_append, List.mem_append] at hd
        exact hd.elim (memoised d) (memoised' d)
      · intro d hd
        rw [Array.toList_append, List.mem_append] at hd
        exact hd.elim (inside d) (inside' d)
    | string b => exact hsuffix b
    | _ => exact raise _ _ rfl
  | @object o object =>
    cases hv with
    | @object p object' =>
      apply (take (.combine o p) ⟨object, object'⟩).bind
      intro more hle joined hjoined
      exact pure (.object hjoined)
    | string b => exact hsuffix b
    | _ => exact raise _ _ rfl
  | _ =>
    cases hv with
    | string b => exact hsuffix b
    | _ => exact raise _ _ rfl

theorem operandsEqual_makes :
  (operandsEqual x y).Makes S session Anything made
  := by
  apply forceBoth_makes hx hy
  intro m hle u v hu hv
  exact request (.equal u v) ⟨hu, hv⟩

theorem ordered_makes (operator : BinaryOp) (accept : Ordering → Bool) :
  (ordered operator accept x y).Makes S session (ProperValue S) made
  := by
  apply forceBoth_makes hx hy
  intro m₁ hle₁ u v hu hv
  apply (request (.order operator u v) ⟨hu, hv⟩).bind
  intro m₂ hle₂ ordering _
  exact pure (.bool _)

theorem shortCircuit_makes (deciding : Bool) :
  (shortCircuit deciding x y).Makes S session (ProperValue S) made
  := by
  apply (force_makes hx).bind
  intro m₁ hle₁ u hu
  apply (expectBool_makes _ u).bind
  intro m₂ hle₂ a _
  split
  · exact pure (.bool _)
  · apply (force_makes (hy.mono (hle₁.trans hle₂))).bind
    intro m₃ hle₃ v hv
    apply (expectBool_makes _ v).bind
    intro m₄ hle₄ b _
    exact pure (.bool _)

theorem applyBinary_makes (op : BinaryOp) :
  (applyBinary op x y).Makes S session (ProperValue S) made
  := by
  cases op with
  | mul =>
    apply ofNumbers_makes hx hy
    rintro more ⟨a, b⟩
    exact checked_makes _
  | sub =>
    apply ofNumbers_makes hx hy
    rintro more ⟨a, b⟩
    exact checked_makes _
  | div => exact divide_makes hx hy _
  | mod => exact divide_makes hx hy _
  | add => exact add_makes hx hy
  | shiftLeft => exact shift_makes hx hy shiftLeft_keepsWords
  | shiftRight => exact shift_makes hx hy shiftRight_keepsWords
  | less => exact ordered_makes hx hy _ _
  | lessEq => exact ordered_makes hx hy _ _
  | greater => exact ordered_makes hx hy _ _
  | greaterEq => exact ordered_makes hx hy _ _
  | equal =>
    apply (operandsEqual_makes hx hy).bind
    intro more hle b _
    exact pure (.bool _)
  | notEqual =>
    apply (operandsEqual_makes hx hy).bind
    intro more hle b _
    exact pure (.bool _)
  | bitAnd => exact onWords_makes hx hy (bitwise_keepsWords _)
  | bitXor => exact onWords_makes hx hy (bitwise_keepsWords _)
  | bitOr => exact onWords_makes hx hy (bitwise_keepsWords _)
  | and => exact shortCircuit_makes hx hy _
  | or => exact shortCircuit_makes hx hy _

end

theorem applyUnary_makes (op : UnaryOp) {x : Deferred} (hx : Proper S made (.deferred x)) :
  (applyUnary op x).Makes S session (ProperValue S) made
  := by
  apply (force_makes hx).bind
  intro more hle v hv
  cases op with
  | not =>
    cases v with
    | bool b => exact pure (.bool _)
    | _ => exact raise _ _ rfl
  | bitNot =>
    cases v with
    | number a => exact ofInt_makes (isWord_complement _)
    | _ => exact raise _ _ rfl
  | plus =>
    cases hv with
    | number number => exact pure (.number number)
    | _ => exact raise _ _ rfl
  | neg =>
    cases hv with
    | number number => exact pure (.number (S.opposite number))
    | _ => exact raise _ _ rfl

/-! ### Functions of the library -/

section

variable {x y z : Deferred} (hx : Proper S made (.deferred x)) (hy : Proper S made (.deferred y))
  (hz : Proper S made (.deferred z))

include hx

theorem lengthOf_makes :
  (lengthOf x).Makes S session Anything made
  := by
  apply (force_makes hx).bind
  intro more hle v hv
  cases v with
  | null | bool | number => exact raise _ _ rfl
  | _ => exact pure trivial

theorem codepointOf_makes :
  (codepointOf x).Makes S session (ProperValue S) made
  := by
  apply (stringArgument_makes hx).bind
  intro more hle s _
  split
  case h_1 c _ =>
    have bound : c.toNat < 2 ^ 64 := c.val.toNat_lt.trans (by decide)
    exact pure (.number (S.finite (Number.finite_ofNat bound)))
  case h_2 => exact raise _ _ rfl

theorem charOf_makes :
  (charOf x).Makes S session (ProperValue S) made
  := by
  apply (numberArgument_makes hx).bind
  intro more hle n _
  split
  · exact raise _ _ rfl
  · dsimp only
    split
    · exact pure (.string _)
    · exact raise _ _ rfl

theorem ofNumber_makes (f : Number → Number) :
  (ofNumber f x).Makes S session (ProperValue S) made
  := by
  apply (numberArgument_makes hx).bind
  intro more hle n _
  exact checked_makes _

include hy

theorem makeArray_makes :
  (makeArray x y).Makes S session (ProperValue S) made
  := by
  apply (numberArgument_makes hx).bind
  intro m₁ hle₁ n _
  split
  · exact raise _ _ rfl
  · split
    · exact raise _ _ rfl
    · apply (force_makes (hy.mono hle₁)).bind
      intro m₂ hle₂ v hv
      apply (expectFunction_makes hv _).bind
      intro m₃ hle₃ f hf
      dsimp only
      split
      case isTrue => exact fail _ (S.reported rfl)
      case isFalse hroom =>
        have room : n.word.toNat ≤ maxElements := Nat.le_of_not_lt hroom
        have calls : ∀ s ∈ (List.range n.word.toNat).map fun i =>
              Suspension.call f [.ready (.number (.ofNat i))] .unknown,
            Proper S m₃ (.suspension s) := by
          intro s hs
          obtain ⟨i, hi, rfl⟩ := List.mem_map.mp hs
          refine .call hf ?_
          intro d hd
          cases List.mem_singleton.mp hd
          have bound : i < 2 ^ 64 := (List.mem_range.mp hi).trans_le (room.trans (by decide))
          exact .ready (.number (S.finite (Number.finite_ofNat bound)))
        apply (take (.share _) calls).bind
        intro m₄ hle₄ ds hds
        exact pure (.array (fun d hd => (hds d hd).1) fun d hd => (hds d hd).2)

omit hx hy in
theorem filterElements_makes {f : Function} {kept elements : List Deferred}
    (hf : Proper S made (.function f)) (hkept : ProperElements S made kept)
    (h : ProperElements S made elements) :
  (filterElements f kept elements).Makes S session (ProperValue S) made
  := by
  induction elements generalizing made kept with
  | nil =>
    refine pure (.array ?_ ?_)
    · exact fun d hd => (hkept d (List.mem_reverse.mp hd)).1
    · exact fun d hd => (hkept d (List.mem_reverse.mp hd)).2
  | cons element elements ih =>
    have head := h element List.mem_cons_self
    apply (request (.call f [element] .unknown) ⟨hf, ?_⟩).bind
    · intro more hle v _
      have hrest : ProperElements S more elements := fun d hd =>
        (h d (List.mem_cons_of_mem _ hd)).imp_right (·.mono hle)
      have hkept : ProperElements S more kept := fun d hd => (hkept d hd).imp_right (·.mono hle)
      cases v with
      | bool b =>
        cases b with
        | true =>
          refine ih (hf.mono hle) ?_ hrest
          intro d hd
          obtain rfl | hd := List.mem_cons.mp hd
          · exact head.imp_right (·.mono hle)
          · exact hkept d hd
        | false => exact ih (hf.mono hle) hkept hrest
      | _ => exact raise _ _ rfl
    · intro d hd
      cases List.mem_singleton.mp hd
      exact head.2

theorem filterArray_makes :
  (filterArray x y).Makes S session (ProperValue S) made
  := by
  apply (force_makes hx).bind
  intro m₁ hle₁ v hv
  apply (expectFunction_makes hv _).bind
  intro m₂ hle₂ f hf
  apply (force_makes (hy.mono (hle₁.trans hle₂))).bind
  intro m₃ hle₃ u hu
  apply (expectArray_makes hu _).bind
  intro m₄ hle₄ elements helements
  exact filterElements_makes (hf.mono (hle₃.trans hle₄)) (by simp [ProperElements]) helements

omit hx hy in
theorem fieldTexts_makes {done : List Value} (hdone : ∀ v ∈ done, ∃ s, v = .string s)
    (names : List Name) :
  (fieldTexts done names).Makes S session (ProperValue S) made
  := by
  induction names generalizing made done with
  | nil =>
    have ready : ∀ d ∈ done.reverse.map Deferred.ready, ∃ s, d = .ready (.string s) := by
      intro d hd
      obtain ⟨v, hv, rfl⟩ := List.mem_map.mp hd
      obtain ⟨s, rfl⟩ := hdone v (List.mem_reverse.mp hv)
      exact ⟨s, rfl⟩
    refine pure (.array ?_ ?_)
    · intro d hd
      obtain ⟨s, rfl⟩ := ready d hd
      trivial
    · intro d hd
      obtain ⟨s, rfl⟩ := ready d hd
      exact .ready (.string s)
  | cons name names ih =>
    apply (take (.text name) trivial).bind
    intro more hle s _
    apply ih
    intro v hv
    obtain rfl | hv := List.mem_cons.mp hv
    · exact ⟨s, rfl⟩
    · exact hdone v hv

theorem fieldsOf_makes :
  (fieldsOf x y).Makes S session (ProperValue S) made
  := by
  apply (force_makes hx).bind
  intro m₁ hle₁ v hv
  apply (expectObject_makes hv _).bind
  intro m₂ hle₂ o _
  apply (force_makes (hy.mono (hle₁.trans hle₂))).bind
  intro m₃ hle₃ u _
  apply (expectBool_makes _ u).bind
  intro m₄ hle₄ b _
  apply (take (.sort (o.fieldNames b)) trivial).bind
  intro m₅ hle₅ names _
  exact fieldTexts_makes (by simp) names

include hz

theorem hasField_makes :
  (hasField x y z).Makes S session (ProperValue S) made
  := by
  apply (force_makes hx).bind
  intro m₁ hle₁ v hv
  apply (expectObject_makes hv _).bind
  intro m₂ hle₂ o _
  apply (stringArgument_makes (hy.mono (hle₁.trans hle₂))).bind
  intro m₃ hle₃ s _
  apply (force_makes (hz.mono ((hle₁.trans hle₂).trans hle₃))).bind
  intro m₄ hle₄ u _
  apply (expectBool_makes _ u).bind
  intro m₅ hle₅ b _
  apply (take (.intern s) trivial).bind
  intro m₆ hle₆ name _
  exact pure (.bool _)

end

theorem externalVariable_makes (name : Name) :
  (externalVariable name).Makes S session (ProperValue S) made
  := by
  apply session_bind
  split
  case h_1 =>
    apply (take (.text name) trivial).bind
    intro more hle s _
    exact raise _ _ rfl
  case h_2 given hgiven =>
    obtain ⟨before, after, heq, -⟩ := List.lookup_eq_some_iff.mp hgiven
    have mem : (name, given) ∈ session.externals := by
      rw [← List.mem_reverse, heq]
      exact List.mem_append_right _ List.mem_cons_self
    apply (take (.external name given) mem).bind
    intro more hle d hd
    exact force_makes hd

/-! ### Calls -/

/-- Whatever a function of the library computes makes a proper value, unless it is a length. -/
theorem applyLibrary_makes {f : LibraryFunction} (hf : f ≠ .length) {arguments : List Deferred}
    {x : Action Value} (h : ∀ d ∈ arguments, Proper S made (.deferred d))
    (hx : applyLibrary f arguments = some x) :
  x.Makes S session (ProperValue S) made
  := by
  match arguments with
  | [] => cases f <;> cases hx
  | [d] =>
    have hd := h d (by simp)
    cases f with
    | length => exact absurd rfl hf
    | type =>
      cases hx
      apply (force_makes hd).bind
      intro more hle v hv
      exact pure (.string _)
    | toString =>
      cases hx
      apply (force_makes hd).bind
      intro more hle v hv
      exact joined_makes id hv
    | codepoint => cases hx; exact codepointOf_makes hd
    | char => cases hx; exact charOf_makes hd
    | floor => cases hx; exact ofNumber_makes hd _
    | ceil => cases hx; exact ofNumber_makes hd _
    | sqrt => cases hx; exact ofNumber_makes hd _
    | exp => cases hx; exact ofNumber_makes hd _
    | log => cases hx; exact ofNumber_makes hd _
    | extVar =>
      cases hx
      apply (stringArgument_makes hd).bind
      intro m₁ hle₁ s _
      apply (take (.intern s) trivial).bind
      intro m₂ hle₂ name _
      exact externalVariable_makes name
    | _ => cases hx
  | [d, e] =>
    have hd := h d (by simp)
    have he := h e (by simp)
    cases f with
    | makeArray => cases hx; exact makeArray_makes hd he
    | filter => cases hx; exact filterArray_makes hd he
    | pow =>
      cases hx
      apply (numberArgument_makes hd).bind
      intro m₁ hle₁ a _
      apply (numberArgument_makes (he.mono hle₁)).bind
      intro m₂ hle₂ b _
      exact checked_makes _
    | modulo => cases hx; exact divide_makes hd he _
    | primitiveEquals =>
      cases hx
      apply forceBoth_makes hd he
      intro m₁ hle₁ u v hu hv
      apply (primitiveEqual_makes u v).bind
      intro m₂ hle₂ b _
      exact pure (.bool _)
    | equals =>
      cases hx
      apply (operandsEqual_makes hd he).bind
      intro more hle b _
      exact pure (.bool _)
    | objectFieldsEx => cases hx; exact fieldsOf_makes hd he
    | _ => cases hx
  | [d, e, g] =>
    cases f with
    | objectHasEx =>
      cases hx
      exact hasField_makes (h d (by simp)) (h e (by simp)) (h g (by simp))
    | _ => cases hx
  | _ :: _ :: _ :: _ :: _ => cases f <;> cases hx

/-- A length is taken of one argument. -/
theorem applyLibrary_length {arguments : List Deferred} {x : Action Value}
    (h : applyLibrary .length arguments = some x) :
  ∃ d, arguments = [d] ∧ x = lengthOf d
  := by
  match arguments with
  | [d] =>
    cases h
    exact ⟨d, rfl, rfl⟩
  | [] | _ :: _ :: _ => cases h

/-- Whatever a builtin computes makes a proper value, unless it is a length: how large that may be
is not known here. -/
theorem applyBuiltin_makes (b : Builtin) {arguments : List Deferred}
    (h : ∀ d ∈ arguments, Proper S made (.deferred d)) :
  (applyBuiltin b arguments).Makes S session
    (fun made v => b = .library .length ∨ ProperValue S made v) made
  := by
  unfold applyBuiltin
  dsimp only
  split
  case h_1 op x y =>
    exact (applyBinary_makes (h x (by simp)) (h y (by simp)) op).imp fun _ _ => .inr
  case h_2 op x => exact (applyUnary_makes op (h x (by simp))).imp fun _ _ => .inr
  case h_3 _ f =>
    cases hx : applyLibrary f arguments with
    | none => exact fail _ (S.reported rfl)
    | some x =>
      by_cases hf : f = .length
      · subst hf
        obtain ⟨d, rfl, rfl⟩ := applyLibrary_length hx
        exact (lengthOf_makes (h d (by simp))).imp fun _ _ _ => .inl rfl
      · exact (applyLibrary_makes hf h hx).imp fun _ _ => .inr
  case h_4 => exact fail _ (S.reported rfl)

theorem callFunction_makes {f : Function} (hf : Proper S made (.function f))
    {arguments : List Deferred} (h : ∀ d ∈ arguments, Proper S made (.deferred d))
    (site : Location) :
  (callFunction f arguments site).Makes S session (ProperValue S) made
  := by
  cases hf with
  | builtin b =>
    unfold callFunction
    dsimp only
    split
    · exact raise _ _ rfl
    · apply (take (.count .builtinCall) trivial).bind
      intro more hle _ _
      exact inFrame _ (.builtin b arguments) fun d hd => (h d hd).mono hle
  | @closure e params body env code =>
    unfold callFunction
    dsimp only
    split
    · exact raise _ _ rfl
    · apply (take (.count .functionCall) trivial).bind
      intro more hle _ _
      have env := env.mono hle
      have scope : Proper S more (.scope e.scope) := by
        cases env with
        | env scope _ => exact scope
      exact inFrame _ (.evaluate body _) ⟨env.withScope
        (scope.bindValues (fun d hd => (h d hd).mono hle) params), code⟩

/-! ### Assertions and fields -/

theorem acceptAssertion_makes (v : Value) (site : Location) :
  (acceptAssertion v site).Makes S session Anything made
  := by
  unfold acceptAssertion
  split
  · exact pure trivial
  · exact raise _ _ rfl
  · exact raise _ _ rfl

theorem checkAssertion_makes {o : Object} (ho : o.MadeIn made) {l : Leaf}
    (hl : l.IsProper S made) (depth : Nat) {assertion : Member}
    (hassertion : assertion.IsProper S made) :
  (checkAssertion o l depth assertion).Makes S session Anything made
  := by
  unfold checkAssertion
  split
  case h_1 => exact acceptAssertion_makes _ _
  case h_2 body _ =>
    apply (inFrame _ (.evaluate body _) ⟨hl.env ho depth, hassertion⟩).bind
    intro more hle v _
    exact acceptAssertion_makes _ _

theorem checkAssertions_makes {o : Object} (ho : o.MadeIn made)
    {assertions : List (Leaf × Nat × Member)}
    (h : ∀ a ∈ assertions, a.1.IsProper S made ∧ a.2.2.IsProper S made) :
  (checkAssertions o assertions).Makes S session Anything made
  := by
  induction assertions generalizing made with
  | nil => exact pure trivial
  | cons a rest ih =>
    obtain ⟨l, depth, assertion⟩ := a
    obtain ⟨hl, hassertion⟩ := h _ List.mem_cons_self
    apply (checkAssertion_makes ho hl depth hassertion).bind
    intro more hle _ _
    apply ih (ho.mono hle)
    intro a ha
    exact (h a (List.mem_cons_of_mem _ ha)).imp (·.mono hle) (·.mono hle)

theorem computeField_makes {o : Object} (ho : o.MadeIn made) {l : Leaf} (hl : l.IsProper S made)
    (depth : Nat) (name : Name) (site : Location) :
  (computeField o l depth name site).Makes S session (ProperValue S) made
  := by
  unfold computeField
  split
  · exact fail _ (S.reported rfl)
  · rename_i visibility v hfield
    exact pure (hl.member hfield)
  · rename_i visibility body extendsSuper hfield
    apply (inFrame _ (.evaluate body _) ⟨hl.env ho depth, hl.member hfield⟩).bind
    intro m₁ hle₁ v hv
    dsimp only
    split
    · apply (request (.readField o _ name site) (ho.mono hle₁)).bind
      intro m₂ hle₂ inherited hinherited
      refine request (.call _ _ site) ⟨.builtin _, ?_⟩
      intro d hd
      rw [List.mem_pair] at hd
      obtain rfl | rfl := hd
      · exact .ready hinherited
      · exact .ready (Proper.mono hv hle₂)
    · exact pure hv

theorem readField_makes {o : Object} (ho : o.MadeIn made) (minDepth : Nat) (name : Name)
    (site : Location) :
  (readField o minDepth name site).Makes S session (ProperValue S) made
  := by
  apply (request (.check o) ho).bind
  intro more hle _ _
  split
  · apply (take (.text name) trivial).bind
    intro _ _ s _
    exact raise _ _ rfl
  · rename_i l depth hfind
    exact request (.field o l depth name site)
      ⟨ho.mono hle, (Object.mem_of_findFrom hfind).1⟩

/-! ### Expressions -/

theorem variableValue_makes {env : Env} (h : Proper S made (.env env)) (name : Name) :
  (variableValue env name).Makes S session (ProperValue S) made
  := by
  have scope : Proper S made (.scope env.scope) := by
    cases h with
    | env scope _ => exact scope
  unfold variableValue
  split
  · rename_i d hd
    cases scope.lookup hd with
    | bound deferred => exact force_makes deferred
  · rename_i i _
    apply (take (.slot i) trivial).bind
    intro more hle d hd
    exact force_makes hd
  · apply (take (.text name) trivial).bind
    intro more hle s _
    exact fail _ (S.reported rfl)

theorem literalFields_makes (code : Code) {env : Env} (henv : Proper S made (.env env))
    {done : List (Name × Field)} (once : (done.map Prod.fst).Nodup)
    (hdone : ∀ field ∈ done, ∀ m, field.2.member.IsProper S m)
    {fields : List FieldDef} (hfields : ∀ field ∈ fields,
      S.code (code.sibling field.name) ∧ S.code (code.sibling field.body)) :
  (literalFields code env done fields).Makes S session
    (fun _ fields => (fields.map Prod.fst).Nodup ∧
      ∀ field ∈ fields, ∀ m, field.2.member.IsProper S m) made
  := by
  induction fields generalizing made done with
  | nil =>
    refine pure ⟨?_, fun field hfield => hdone field (List.mem_reverse.mp hfield)⟩
    rw [List.map_reverse]
    exact List.nodup_reverse.mpr once
  | cons field rest ih =>
    obtain ⟨hname, hbody⟩ := hfields field List.mem_cons_self
    have hrest := fun other hother => hfields other (List.mem_cons_of_mem _ hother)
    apply (request (.evaluate (code.sibling field.name) env) ⟨henv, hname⟩).bind
    intro m₁ hle₁ v hv
    have henv := henv.mono hle₁
    cases v with
    | null => exact ih henv once hdone hrest
    | string s =>
      apply (take (.intern s) trivial).bind
      intro m₂ hle₂ name _
      split
      case isTrue =>
        apply (take (.text name) trivial).bind
        intro m₃ hle₃ text _
        exact raise _ _ rfl
      case isFalse unused =>
        refine ih (henv.mono hle₂) ?_ ?_ hrest
        · refine List.nodup_cons.mpr ⟨?_, once⟩
          intro used
          obtain ⟨other, hother, rfl⟩ := List.mem_map.mp used
          exact unused (List.any_eq_true.mpr ⟨other, hother, beq_self_eq_true other.1⟩)
        · intro other hother
          obtain rfl | hother := List.mem_cons.mp hother
          · exact fun _ => hbody
          · exact hdone other hother
    | _ => exact raise _ _ rfl

theorem literalObject_makes (code : Code) {env : Env} (henv : Proper S made (.env env))
    {asserts : List NodeId} (hasserts : ∀ id ∈ asserts, S.code (code.sibling id))
    {fields : List FieldDef} (hfields : ∀ field ∈ fields,
      S.code (code.sibling field.name) ∧ S.code (code.sibling field.body)) :
  (literalObject code env asserts fields).Makes S session (ProperValue S) made
  := by
  apply (literalFields_makes code henv (by simp) (by simp) hfields).bind
  intro m₁ hle₁ fields hfields
  obtain ⟨once, hfields⟩ := hfields
  have scope : Proper S m₁ (.scope env.scope) := by
    cases henv.mono hle₁ with
    | env scope _ => exact scope
  refine (take (.literal _ _ _) ⟨S.once once, scope, ?_, ?_⟩).bind ?_
  · exact fun field hfield => hfields field hfield m₁
  · intro member hmember
    obtain ⟨id, hid, rfl⟩ := List.mem_map.mp hmember
    exact hasserts id hid
  · intro m₂ hle₂ o ho
    exact pure (.object ho)

theorem positionIn_makes (size : Nat) (site : Location) (v : Value) :
  (positionIn size site v).Makes S session Anything made
  := by
  apply (expectNumber_makes _ v).bind
  intro more hle x _
  split
  · exact raise _ _ rfl
  · split
    · exact raise _ _ rfl
    · exact pure trivial

theorem indexValue_makes {target : Value} (h : Proper S made (.value target)) (index : Value)
    (site : Location) :
  (indexValue target index site).Makes S session (ProperValue S) made
  := by
  cases h with
  | @object o object =>
    apply (expectString_makes _ index).bind
    intro m₁ hle₁ s _
    apply (take (.intern s) trivial).bind
    intro m₂ hle₂ name _
    exact request (.readField o 0 name site) ((object.mono hle₁).mono hle₂)
  | @array elements _ inside =>
    apply (positionIn_makes _ _ index).bind
    intro more hle position _
    apply force_makes
    cases hd : elements[position]? with
    | none => exact .ready .null
    | some d =>
      refine (inside d ?_).mono hle
      rw [← Array.getElem?_toList] at hd
      exact List.mem_of_getElem? hd
  | string s =>
    apply (positionIn_makes _ _ index).bind
    intro more hle position _
    exact pure (.string _)
  | _ => exact raise _ _ rfl

theorem directoryOf_makes (arena : Arena) :
  (directoryOf arena).Makes S session Anything made
  := by
  apply (take (.text arena.file) trivial).bind
  intro more hle s _
  exact pure trivial

/-- The suspensions of some expressions of a code in a proper environment. -/
theorem suspensions_proper {code : Code} {env : Env} (henv : Proper S made (.env env))
    (context : FrameContext) {ids : List NodeId} (hids : ∀ id ∈ ids, S.code (code.sibling id)) :
  ∀ s ∈ ids.map fun id => Suspension.code context env (code.sibling id),
    Proper S made (.suspension s)
  := by
  intro s hs
  obtain ⟨id, hid, rfl⟩ := List.mem_map.mp hs
  exact .code henv (hids id hid)

/-- Two arguments of a builtin, of which the first is computed. -/
theorem pair_proper {v : Value} (hv : Proper S made (.value v)) {d : Deferred}
    (hd : Proper S made (.deferred d)) :
  ∀ e ∈ [Deferred.ready v, d], Proper S made (.deferred e)
  := by
  intro e he
  rw [List.mem_pair] at he
  obtain rfl | rfl := he
  · exact .ready hv
  · exact hd

theorem evaluateCode_makes {code : Code} (hcode : S.code code) {env : Env}
    (henv : Proper S made (.env env)) :
  (evaluateCode code env).Makes S session (ProperValue S) made
  := by
  have self : ∀ o, env.self? = some o → o.MadeIn made := by
    cases henv with
    | env _ self => exact self
  apply (take (.count .expression) trivial).bind
  intro m₁ hle₁ _ _
  have henv := henv.mono hle₁
  have below : ∀ id, id ∈ (code.arena.below code.root).map Spot.id → S.code (code.sibling id) :=
    fun id => S.child hcode
  have child : ∀ {m : List Object}, m₁ <+: m → ∀ id, S.code (code.sibling id) →
      ((code.sibling id).evaluate env).Makes S session (ProperValue S) m :=
    fun hle id hid => request (.evaluate (code.sibling id) env) ⟨henv.mono hle, hid⟩
  have here := List.prefix_refl m₁
  dsimp only [Code.node]
  cases hnode : code.arena.node code.root with
  | null => exact pure .null
  | bool b => exact pure (.bool b)
  | number x => exact pure (.number (S.literal hcode hnode))
  | string s =>
    apply (take (.text s) trivial).bind
    intro m₂ hle₂ text _
    exact pure (.string _)
  | var name => exact variableValue_makes henv name
  | locals binds body =>
    have hbinds : ∀ bind ∈ code.arena.readBinds binds, S.code (code.sibling bind.body) := by
      intro bind hbind
      apply below
      simp only [Arena.below, hnode, List.map_map, List.mem_map]
      exact ⟨bind.body, List.mem_cons_of_mem _ (List.mem_map_of_mem hbind), rfl⟩
    apply (take (.bindLocals code env _) ⟨henv, hbinds⟩).bind
    intro m₂ hle₂ inner hinner
    exact request (.evaluate (code.sibling body) inner) ⟨hinner, below body (by simp [Arena.below, hnode])⟩
  | function params body => exact pure (.function (.closure henv (below body (by simp [Arena.below, hnode]))))
  | apply target arguments =>
    have harguments : ∀ id ∈ code.arena.readList arguments, S.code (code.sibling id) :=
      fun id hid => below id (by simp [Arena.below, hnode, hid])
    apply (child here target (below target (by simp [Arena.below, hnode]))).bind
    intro m₂ hle₂ v hv
    apply (expectFunction_makes hv _).bind
    intro m₃ hle₃ f hf
    have henv := henv.mono (hle₂.trans hle₃)
    apply (take (.share _) (suspensions_proper henv _ harguments)).bind
    intro m₄ hle₄ ds hds
    exact request (.call f ds _) ⟨hf.mono hle₄, fun d hd => (hds d hd).2⟩
  | array elements =>
    have helements : ∀ id ∈ code.arena.readList elements, S.code (code.sibling id) :=
      fun id hid => below id (by simp [Arena.below, hnode, hid])
    apply (take (.share _) (suspensions_proper henv _ helements)).bind
    intro m₂ hle₂ ds hds
    exact pure (.array (fun d hd => (hds d hd).1) fun d hd => (hds d hd).2)
  | object asserts fields =>
    apply literalObject_makes code henv
    · intro id hid
      exact below id (by simp [Arena.below, hnode, hid])
    · intro field hfield
      constructor
      · apply below
        simp only [Arena.below, hnode, List.map_append, List.map_map, List.mem_append, List.mem_map]
        exact .inl ⟨field, hfield, rfl⟩
      · apply below
        simp only [Arena.below, hnode, List.map_append, List.map_map, List.mem_append, List.mem_map]
        exact .inr (.inr ⟨field, hfield, rfl⟩)
  | binary op left right =>
    have hright := below right (by simp [Arena.below, hnode])
    apply (child here left (below left (by simp [Arena.below, hnode]))).bind
    intro m₂ hle₂ v hv
    split
    · exact request (.call _ _ _)
        ⟨.builtin _, pair_proper hv (.suspended (.code (henv.mono hle₂) hright))⟩
    · simp only [pure_bind]
      apply (child hle₂ right hright).bind
      intro m₃ hle₃ u hu
      exact request (.call _ _ _)
        ⟨.builtin _, pair_proper (Proper.mono hv hle₃) (.ready hu)⟩
  | unary op operand =>
    apply (child here operand (below operand (by simp [Arena.below, hnode]))).bind
    intro m₂ hle₂ v hv
    refine request (.call _ _ _) ⟨.builtin _, ?_⟩
    intro d hd
    cases List.mem_singleton.mp hd
    exact .ready hv
  | conditional condition whenTrue whenFalse =>
    apply (child here condition (below condition (by simp [Arena.below, hnode]))).bind
    intro m₂ hle₂ v hv
    apply (expectBool_makes _ v).bind
    intro m₃ hle₃ decision _
    cases decision with
    | true => exact child (hle₂.trans hle₃) whenTrue (below whenTrue (by simp [Arena.below, hnode]))
    | false => exact child (hle₂.trans hle₃) whenFalse (below whenFalse (by simp [Arena.below, hnode]))
  | index target position =>
    apply (child here target (below target (by simp [Arena.below, hnode]))).bind
    intro m₂ hle₂ v hv
    apply (child hle₂ position (below position (by simp [Arena.below, hnode]))).bind
    intro m₃ hle₃ i _
    exact indexValue_makes (Proper.mono hv hle₃) i _
  | superIndex position =>
    cases ho : env.self? with
    | none => exact raise _ _ rfl
    | some o =>
      apply (child here position (below position (by simp [Arena.below, hnode]))).bind
      intro m₂ hle₂ v _
      apply (expectString_makes _ v).bind
      intro m₃ hle₃ s _
      apply (take (.intern s) trivial).bind
      intro m₄ hle₄ name _
      have hle := ((hle₁.trans hle₂).trans hle₃).trans hle₄
      exact request (.readField o _ name _) ((self o ho).mono hle)
  | selfRef =>
    cases ho : env.self? with
    | none => exact raise _ _ rfl
    | some o => exact pure (.object ((self o ho).mono hle₁))
  | error message =>
    apply (child here message (below message (by simp [Arena.below, hnode]))).bind
    intro m₂ hle₂ v _
    apply (expectString_makes _ v).bind
    intro m₃ hle₃ s _
    exact raise _ _ rfl
  | importCode path =>
    apply (directoryOf_makes _).bind
    intro m₂ hle₂ directory _
    apply (take (.imported directory path _) trivial).bind
    intro m₃ hle₃ d hd
    exact force_makes hd
  | importText path =>
    apply (directoryOf_makes _).bind
    intro m₂ hle₂ directory _
    apply (take (.text path) trivial).bind
    intro m₃ hle₃ text _
    apply (take (.importText directory text _) trivial).bind
    intro m₄ hle₄ file _
    exact pure (.string _)

/-! ### Programs -/

theorem matchArguments_makes {given : List (Name × External)}
    (hgiven : ∀ argument ∈ given, argument ∈ session.arguments) (site : Location)
    {done : List Deferred} (hdone : ∀ d ∈ done, Proper S made (.deferred d)) (params : List Name) :
  (matchArguments given site done params).Makes S session
    (fun made ds => ∀ d ∈ ds, Proper S made (.deferred d)) made
  := by
  induction params generalizing made done with
  | nil => exact pure fun d hd => hdone d (List.mem_reverse.mp hd)
  | cons param params ih =>
    unfold matchArguments
    split
    case h_1 =>
      apply (take (.text param) trivial).bind
      intro more hle s _
      exact raise _ _ rfl
    case h_2 external hexternal =>
      obtain ⟨before, after, heq, -⟩ := List.lookup_eq_some_iff.mp hexternal
      have mem : (param, external) ∈ session.arguments := by
        apply hgiven
        rw [heq]
        exact List.mem_append_right _ List.mem_cons_self
      apply (take (.argument param external) mem).bind
      intro more hle d hd
      apply ih
      intro e he
      obtain rfl | he := List.mem_cons.mp he
      · exact hd
      · exact (hdone e he).mono hle

theorem applyArguments_makes {v : Value} (h : Proper S made (.value v)) (site : Location) :
  (applyArguments v site).Makes S session (ProperValue S) made
  := by
  cases h with
  | @function f function =>
    have params : (parameterNames f).Makes S session Anything made := by
      cases f with
      | closure => exact pure trivial
      | builtin b => exact take (.internAll b.params) trivial
    apply params.bind
    intro m₁ hle₁ params _
    apply session_bind
    dsimp only
    split
    · apply (take (.text _) trivial).bind
      intro m₂ hle₂ s _
      exact raise _ _ rfl
    · apply (matchArguments_makes (fun _ h => h) site (by simp) params).bind
      intro m₂ hle₂ ds hds
      exact request (.call f ds site) ⟨(function.mono hle₁).mono hle₂, hds⟩
  | null => exact pure .null
  | bool b => exact pure (.bool b)
  | number number => exact pure (.number number)
  | string s => exact pure (.string s)
  | array memoised inside => exact pure (.array memoised inside)
  | object object => exact pure (.object object)

theorem computeProgram_makes {code : Code} (hcode : S.code code)
    (h : session.library.MadeIn made) :
  (computeProgram code).Makes S session (ProperValue S) made
  := by
  apply (request (.evaluate code session.base) ⟨base_proper h, hcode⟩).bind
  intro more hle v hv
  exact applyArguments_makes hv _

theorem computeOutput_makes {code : Code} (hcode : S.code code)
    (h : session.library.MadeIn made) :
  (computeOutput code).Makes S session Anything made
  := by
  apply (computeProgram_makes hcode h).bind
  intro m₁ hle₁ v hv
  apply (manifest_makes .multiLine hv).bind
  intro m₂ hle₂ text _
  exact pure trivial

end

end Jsonnet
