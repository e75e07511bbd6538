import Jsonnet.Proofs.Parallel

/-!
# Builtins in parallel

What deferred values, output and comparison come to depends on akin data in the same way. They
ask for the tasks of builtins only, which are no expressions.
-/

namespace Jsonnet

/-- Whether calls may be asked for, and anything inside a frame. -/
structure AsksCalls (ask : Option Frame → Task → Prop) : Prop where
  frame : ∀ frame task, ask (some frame) task
  call : ∀ f ds site, ask none (.call f ds site)

/-- Whether everything may be asked for that builtins ask for. -/
structure AsksData (ask : Option Frame → Task → Prop) : Prop extends AsksCalls ask where
  force : ∀ t, ask none (.force t)
  check : ∀ o, ask none (.check o)
  read : ∀ o minDepth n site, ask none (.readField o minDepth n site)
  document : ∀ v, ask none (.document v)
  equal : ∀ x y, ask none (.equal x y)
  order : ∀ operator x y, ask none (.order operator x y)

open Action.Parallel

variable {κ : Kinship} {session session' : Session} {ask : Option Frame → Task → Prop} {w : Bond}

/-! ### Tasks by name -/

theorem textOf_parallel {n n' : Name} (name : w.name n n') :
  Action.Parallel κ session session' ask Identical w (Action.textOf n) (Action.textOf n')
  := take (.text name)

theorem intern_parallel (s : String) :
  Action.Parallel κ session session' ask NameAs w (Action.intern s) (Action.intern s)
  := take (.intern s)

/-- Suspensions that are akin one by one are shared by deferred values that are. -/
theorem shareAll_parallel {ss ss' : List Suspension}
    (h : List.Forall₂ (AkinAs κ .suspension w) ss ss') :
  Action.Parallel κ session session' ask (AkinAs κ .deferreds) w (Action.shareAll ss)
    (Action.shareAll ss')
  := by
  have kin : Partly (AkinAs κ .suspension w) (ss.map fun _ => True) ss ss' :=
    Partly.of_forall₂ h (by simp)
  refine .step (.share kin) ?_
  intro w' hle ds ds' hds
  apply Progress.Parallel.finished
  rw [AkinAs, Akin.deferreds_iff]
  apply hds.forall₂
  intro p hp
  obtain ⟨_, -, rfl⟩ := List.mem_map.mp hp
  trivial

/-! ### Deferred values -/

theorem run_parallel (asks : AsksCalls ask) {s s' : Suspension}
    (h : Akin κ w (.suspension s) (.suspension s')) :
  Action.Parallel κ session session' ask (AkinAs κ .value) w s.run s'.run
  := by
  cases h with
  | code context env body =>
    apply (take (.count .thunk)).bind
    intro w' hle _ _ _
    have body := κ.mono body hle.1
    exact inFrame (asks.frame _ _) ⟨κ.location body, context.mono hle.1⟩
      (Task.Akin.evaluate (env.mono hle) body)
  | call function arguments site =>
    exact request (asks.call _ _ _) (Task.Akin.call function arguments site)

section

variable (asks : AsksData ask)

include asks

theorem force_parallel {d d' : Deferred} (h : Akin κ w (.deferred d) (.deferred d')) :
  Action.Parallel κ session session' ask (AkinAs κ .value) w d.force d'.force
  := by
  cases h with
  | ready value => exact pure value
  | suspended suspension => exact run_parallel asks.toAsksCalls suspension
  | shared alive => exact request (asks.force _) (Task.Akin.force alive)
  | failed failure => exact fail failure

theorem check_parallel {o p : Object} (h : Akin κ w (.object o) (.object p)) :
  Action.Parallel κ session session' ask Identical w o.check p.check
  := request (asks.check _) (Task.Akin.check h)

theorem read_parallel {o p : Object} (minDepth : Nat) {n n' : Name} {l l' : Location}
    (h : Akin κ w (.object o) (.object p)) (name : w.name n n') (site : l.Akin w.name l') :
  Action.Parallel κ session session' ask (AkinAs κ .value) w (o.read minDepth n l)
    (p.read minDepth n' l')
  := request (asks.read _ _ _ _) (Task.Akin.readField minDepth h name site)

theorem document_parallel {v v' : Value} (h : Akin κ w (.value v) (.value v')) :
  Action.Parallel κ session session' ask Identical w v.document v'.document
  := request (asks.document _) (Task.Akin.document h)

end

/-! ### Values of one type -/

section

variable {v v' : Value} (h : Akin κ w (.value v) (.value v')) {l l' : Location}
  (site : l.Akin w.name l')

include h site

theorem expectNumber_parallel :
  Action.Parallel κ session session' ask Identical w (v.expectNumber l) (v'.expectNumber l')
  := by
  cases h with
  | number x => exact pure rfl
  | _ => exact raise _ site

theorem expectString_parallel :
  Action.Parallel κ session session' ask Identical w (v.expectString l) (v'.expectString l')
  := by
  cases h with
  | string s => exact pure rfl
  | _ => exact raise _ site

theorem expectBool_parallel :
  Action.Parallel κ session session' ask Identical w (v.expectBool l) (v'.expectBool l')
  := by
  cases h with
  | bool b => exact pure rfl
  | _ => exact raise _ site

theorem expectArray_parallel :
  Action.Parallel κ session session' ask
    (fun w (xs ys : Array Deferred) => AkinAs κ .deferreds w xs.toList ys.toList) w
    (v.expectArray l) (v'.expectArray l')
  := by
  cases h with
  | array elements => exact pure elements
  | _ => exact raise _ site

theorem expectFunction_parallel :
  Action.Parallel κ session session' ask (AkinAs κ .function) w (v.expectFunction l)
    (v'.expectFunction l')
  := by
  cases h with
  | function function => exact pure function
  | _ => exact raise _ site

theorem expectObject_parallel :
  Action.Parallel κ session session' ask (AkinAs κ .object) w (v.expectObject l)
    (v'.expectObject l')
  := by
  cases h with
  | object object => exact pure object
  | _ => exact raise _ site

end

section

variable (asks : AsksData ask) {d d' : Deferred} (h : Akin κ w (.deferred d) (.deferred d'))

include asks h

theorem numberArgument_parallel :
  Action.Parallel κ session session' ask Identical w (numberArgument d) (numberArgument d')
  := by
  apply (force_parallel asks h).bind
  intro w' hle v v' hv
  exact expectNumber_parallel hv (unknown w')

theorem stringArgument_parallel :
  Action.Parallel κ session session' ask Identical w (stringArgument d) (stringArgument d')
  := by
  apply (force_parallel asks h).bind
  intro w' hle v v' hv
  exact expectString_parallel hv (unknown w')

end

/-! ### Output -/

theorem sortedFields_parallel {o p : Object} (h : Akin κ w (.object o) (.object p))
    (includeHidden : Bool) :
  Action.Parallel κ session session' ask NamesAs w (sortedFields o includeHidden)
    (sortedFields p includeHidden)
  := by
  obtain ⟨ns, names, order⟩ := h.fieldNames includeHidden
  exact take (.sort names order)

section

variable (asks : AsksData ask)

include asks

theorem elementDocuments_parallel (done : List Document) {ds ds' : List Deferred}
    (h : Akin κ w (.deferreds ds) (.deferreds ds')) :
  Action.Parallel κ session session' ask Identical w (elementDocuments done ds)
    (elementDocuments done ds')
  := by
  induction ds generalizing w done ds' with
  | nil =>
    cases h
    exact pure rfl
  | cons d ds ih =>
    cases h with
    | cons head tail =>
      apply (force_parallel asks head).bind
      intro w₁ hle₁ v v' hv
      apply (document_parallel asks hv).bind
      intro w₂ hle₂ document _ hdocument
      cases hdocument
      exact ih _ (tail.mono (hle₁.trans hle₂))

theorem fieldDocuments_parallel {o p : Object} (done : List (String × Document))
    {ns ns' : List Name} (h : Akin κ w (.object o) (.object p))
    (names : List.Forall₂ w.name ns ns') :
  Action.Parallel κ session session' ask Identical w (fieldDocuments o done ns)
    (fieldDocuments p done ns')
  := by
  induction ns generalizing w done ns' with
  | nil =>
    cases names
    exact pure rfl
  | cons n ns ih =>
    cases names with
    | cons name names =>
      apply (textOf_parallel name).bind
      intro w₁ hle₁ key _ hkey
      cases hkey
      apply (read_parallel asks 0 (h.mono hle₁) (Bond.name_mono hle₁ name) (unknown w₁)).bind
      intro w₂ hle₂ v v' hv
      apply (document_parallel asks hv).bind
      intro w₃ hle₃ document _ hdocument
      cases hdocument
      have hle := (hle₁.trans hle₂).trans hle₃
      exact ih _ (h.mono hle) (Bond.names_mono hle names)

theorem computeDocument_parallel {v v' : Value} (h : Akin κ w (.value v) (.value v')) :
  Action.Parallel κ session session' ask Identical w (computeDocument v) (computeDocument v')
  := by
  cases h with
  | null => exact pure rfl
  | bool b => exact pure rfl
  | number x => exact pure rfl
  | string s => exact pure rfl
  | function function => exact raiseHere _
  | array elements =>
    apply (elementDocuments_parallel asks [] elements).bind
    intro w' hle documents _ hdocuments
    cases hdocuments
    exact pure rfl
  | object object =>
    apply (check_parallel asks object).bind
    intro w₁ hle₁ _ _ _
    apply (sortedFields_parallel (object.mono hle₁) false).bind
    intro w₂ hle₂ ns ns' names
    apply (fieldDocuments_parallel asks [] (object.mono (hle₁.trans hle₂)) names).bind
    intro w₃ hle₃ documents _ hdocuments
    cases hdocuments
    exact pure rfl

theorem manifest_parallel (layout : Layout) {v v' : Value} (h : Akin κ w (.value v) (.value v')) :
  Action.Parallel κ session session' ask Identical w (v.manifest layout) (v'.manifest layout)
  := by
  apply (document_parallel asks h).bind
  intro w' hle document _ hdocument
  cases hdocument
  exact pure rfl

theorem displayed_parallel {v v' : Value} (h : Akin κ w (.value v) (.value v')) :
  Action.Parallel κ session session' ask Identical w v.displayed v'.displayed
  := by
  have hmanifest : Action.Parallel κ session session' ask Identical w (v.manifest .singleLine)
      (v'.manifest .singleLine) := manifest_parallel asks .singleLine h
  cases h with
  | string s => exact pure rfl
  | _ => exact hmanifest

/-! ### Comparison -/

theorem equal_parallel {x y x' y' : Value} (hx : Akin κ w (.value x) (.value x'))
    (hy : Akin κ w (.value y) (.value y')) :
  Action.Parallel κ session session' ask Identical w (x.equal y) (x'.equal y')
  := request (asks.equal _ _) (Task.Akin.equal hx hy)

theorem order_parallel (operator : BinaryOp) {x y x' y' : Value}
    (hx : Akin κ w (.value x) (.value x')) (hy : Akin κ w (.value y) (.value y')) :
  Action.Parallel κ session session' ask Identical w (x.order operator y) (x'.order operator y')
  := request (asks.order _ _ _) (Task.Akin.order operator hx hy)

theorem elementsEqual_parallel {xs ys xs' ys' : List Deferred}
    (hx : Akin κ w (.deferreds xs) (.deferreds xs'))
    (hy : Akin κ w (.deferreds ys) (.deferreds ys')) :
  Action.Parallel κ session session' ask Identical w (elementsEqual xs ys) (elementsEqual xs' ys')
  := by
  induction xs generalizing w xs' ys ys' with
  | nil =>
    cases hx
    cases hy <;> exact pure rfl
  | cons x xs ih =>
    cases hx with
    | cons headx tailx =>
      cases hy with
      | nil => exact pure rfl
      | cons heady taily =>
        apply (force_parallel asks headx).bind
        intro w₁ hle₁ v v' hv
        apply (force_parallel asks (heady.mono hle₁)).bind
        intro w₂ hle₂ u u' hu
        apply (equal_parallel asks (hv.mono hle₂) hu).bind
        intro w₃ hle₃ same _ hsame
        cases hsame
        have hle := (hle₁.trans hle₂).trans hle₃
        cases same with
        | true => exact ih (tailx.mono hle) (taily.mono hle)
        | false => exact pure rfl

theorem fieldsEqual_parallel {a b a' b' : Object} {ns ns' : List Name}
    (ha : Akin κ w (.object a) (.object a')) (hb : Akin κ w (.object b) (.object b'))
    (names : List.Forall₂ w.name ns ns') :
  Action.Parallel κ session session' ask Identical w (fieldsEqual a b ns) (fieldsEqual a' b' ns')
  := by
  induction ns generalizing w ns' with
  | nil =>
    cases names
    exact pure rfl
  | cons n ns ih =>
    cases names with
    | cons name names =>
      apply (read_parallel asks 0 ha name (unknown w)).bind
      intro w₁ hle₁ v v' hv
      apply (read_parallel asks 0 (hb.mono hle₁) (Bond.name_mono hle₁ name) (unknown w₁)).bind
      intro w₂ hle₂ u u' hu
      apply (equal_parallel asks (hv.mono hle₂) hu).bind
      intro w₃ hle₃ same _ hsame
      cases hsame
      have hle := (hle₁.trans hle₂).trans hle₃
      cases same with
      | false => exact pure rfl
      | true => exact ih (ha.mono hle) (hb.mono hle) (Bond.names_mono hle names)

theorem computeEqual_parallel {x y x' y' : Value} (hx : Akin κ w (.value x) (.value x'))
    (hy : Akin κ w (.value y) (.value y')) :
  Action.Parallel κ session session' ask Identical w (computeEqual x y) (computeEqual x' y')
  := by
  cases hx with
  | array elements =>
    cases hy with
    | array elements' =>
      rw [computeEqual, computeEqual, elements.size_eq, elements'.size_eq]
      split
      · exact pure rfl
      · exact elementsEqual_parallel asks elements elements'
    | _ => exact pure rfl
  | object object =>
    cases hy with
    | object object' =>
      apply (sortedFields_parallel object false).bind
      intro w₁ hle₁ ns ns' names
      apply (sortedFields_parallel (object'.mono hle₁) false).bind
      intro w₂ hle₂ ms ms' names'
      have hle := hle₁.trans hle₂
      have names := Bond.names_mono hle₂ names
      have heq := Bond.eq_iff_names names names'
      rw [bne, bne, Bool.eq_iff_iff.mpr (by rw [beq_iff_eq, beq_iff_eq, heq] : (ns == ms) ↔ (ns' == ms'))]
      split
      · exact pure rfl
      · exact fieldsEqual_parallel asks (object.mono hle) (object'.mono hle) names
    | _ => exact pure rfl
  | function function =>
    cases hy with
    | function function' => exact raiseHere _
    | _ => exact pure rfl
  | _ => cases hy <;> exact pure rfl

theorem orderElements_parallel (operator : BinaryOp) {xs ys xs' ys' : List Deferred}
    (hx : Akin κ w (.deferreds xs) (.deferreds xs'))
    (hy : Akin κ w (.deferreds ys) (.deferreds ys')) :
  Action.Parallel κ session session' ask Identical w (orderElements operator xs ys)
    (orderElements operator xs' ys')
  := by
  induction xs generalizing w xs' ys ys' with
  | nil =>
    cases hx
    cases hy <;> exact pure rfl
  | cons x xs ih =>
    cases hx with
    | cons headx tailx =>
      cases hy with
      | nil => exact pure rfl
      | cons heady taily =>
        apply (force_parallel asks headx).bind
        intro w₁ hle₁ v v' hv
        apply (force_parallel asks (heady.mono hle₁)).bind
        intro w₂ hle₂ u u' hu
        apply (order_parallel asks operator (hv.mono hle₂) hu).bind
        intro w₃ hle₃ ordering _ hordering
        cases hordering
        have hle := (hle₁.trans hle₂).trans hle₃
        cases ordering with
        | eq => exact ih (tailx.mono hle) (taily.mono hle)
        | _ => exact pure rfl

theorem computeOrder_parallel (operator : BinaryOp) {x y x' y' : Value}
    (hx : Akin κ w (.value x) (.value x')) (hy : Akin κ w (.value y) (.value y')) :
  Action.Parallel κ session session' ask Identical w (computeOrder operator x y)
    (computeOrder operator x' y')
  := by
  cases hx with
  | array elements =>
    cases hy with
    | array elements' => exact orderElements_parallel asks operator elements elements'
    | _ => exact raiseHere _
  | _ => cases hy <;> first | exact pure rfl | exact raiseHere _

end

theorem primitiveEqual_parallel {x y x' y' : Value} (hx : Akin κ w (.value x) (.value x'))
    (hy : Akin κ w (.value y) (.value y')) :
  Action.Parallel κ session session' ask Identical w (primitiveEqual x y) (primitiveEqual x' y')
  := by
  unfold primitiveEqual
  rw [hx.typeName_eq, hy.typeName_eq]
  split
  · exact pure rfl
  · cases hx <;> cases hy <;> first | exact pure rfl | exact raiseHere _

end Jsonnet
