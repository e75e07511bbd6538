import Jsonnet.Proofs.Lockstep

/-!
# Builtins in lockstep

What builtins, comparison and output do depends on their arguments only up to what is
paired.
-/

namespace Jsonnet

open Action.Related

variable {session session' : Session} {τ : Terms} {w : World τ}

/-! ### Tasks by name -/

section

variable {code : Code} {e e' : Env} (named : code.Named w.name) (fits : code.FitsIn τ e)
  (env : Alike w.toPairing (.env e) (.env e'))

include named fits env

theorem evaluate_related :
  Action.Related session session' Matching w (code.evaluate e) (code.evaluate e')
  := request (Task.Related.evaluate named fits env)

theorem evaluateIn_related {context context' : FrameContext}
    (same : τ.Agrees context context') :
  Action.Related session session' Matching w (code.evaluateIn context e)
    (code.evaluateIn context' e')
  := inFrame (fun hexact => congrArg _ (same hexact)) (Task.Related.evaluate named fits env)

end

section

variable {site site' : Location} (same_site : τ.Agrees site site')

include same_site

theorem call_related {f g : Function} {ds ds' : List Deferred}
    (function : Alike w.toPairing (.function f) (.function g))
    (arguments : Alike w.toPairing (.deferreds ds) (.deferreds ds')) :
  Action.Related session session' Matching w (f.call ds site) (g.call ds' site')
  := request (Task.Related.call same_site function arguments)

theorem callBuiltin_related (b : Builtin) {ds ds' : List Deferred}
    (arguments : List.Forall₂ (Deferred.Matches w.toPairing) ds ds') :
  Action.Related session session' Matching w ((Function.builtin b).call ds site)
    ((Function.builtin b).call ds' site')
  := request (Task.Related.callBuiltin b same_site arguments)

theorem read_related {o p : Object} (minDepth : Nat) {name : Name} (object : w.object o p)
    (known : w.name name) :
  Action.Related session session' Matching w (o.read minDepth name site)
    (p.read minDepth name site')
  := request (Task.Related.readField minDepth same_site object known)

end

theorem check_related {o p : Object} (object : w.object o p) :
  Action.Related session session' (fun w' _ _ => w'.self o p) w o.check p.check
  := request (Task.Related.check object)

theorem document_related {v v' : Value} (h : v.Matches w.toPairing v') :
  Action.Related session session' Same w v.document v'.document
  := request (Task.Related.document h)

theorem equal_related {x y x' y' : Value} (hx : x.Matches w.toPairing x')
    (hy : y.Matches w.toPairing y') :
  Action.Related session session' Same w (x.equal y) (x'.equal y')
  := request (Task.Related.equal hx hy)

theorem order_related (operator : BinaryOp) {x y x' y' : Value}
    (hx : x.Matches w.toPairing x') (hy : y.Matches w.toPairing y') :
  Action.Related session session' Same w (x.order operator y) (x'.order operator y')
  := request (Task.Related.order operator hx hy)

theorem textOf_related {name : Name} (known : w.name name) :
  Action.Related session session' Same w (Action.textOf name) (Action.textOf name)
  := take (Operation.Related.text known)

theorem intern_related (s : String) :
  Action.Related session session' KnownName w (Action.intern s) (Action.intern s)
  := take (Operation.Related.intern s)

theorem shareAll_related {ss ss' : List Suspension}
    (alike : List.Forall₂
      (fun s s' => Alike w.toPairing (.suspension s) (.suspension s')) ss ss') :
  Action.Related session session' AlikeDeferreds w (Action.shareAll ss) (Action.shareAll ss')
  := take (Operation.Related.share alike)

/-! ### Deferred values -/

theorem run_related {s s' : Suspension}
    (h : Alike w.toPairing (.suspension s) (.suspension s')) :
  Action.Related session session' Matching w s.run s'.run
  := by
  cases h with
  | code context env named fits =>
    apply (take (Operation.Related.count .thunk)).bind
    intro w' hle _ _ _
    exact evaluateIn_related (named.mono fun _ => Pairing.name_mono hle) fits (env.mono hle)
      context
  | call same_site function arguments => exact call_related same_site function arguments

theorem force_related {d d' : Deferred} (h : d.Matches w.toPairing d') :
  Action.Related session session' Matching w d.force d'.force
  := by
  cases h with
  | ready h => exact pure h
  | alike h =>
    cases h with
    | ready value => exact pure (w.matches_of_alike value)
    | suspended suspension => exact run_related suspension
    | shared thunk => exact request (Task.Related.force thunk)
    | failed fails => exact fail fails

/-! ### Values of one type -/

section

variable {v v' : Value} (h : v.Matches w.toPairing v') {site site' : Location}
  (same_site : τ.Agrees site site')

include h same_site

theorem expectNumber_related :
  Action.Related session session' Same w (v.expectNumber site) (v'.expectNumber site')
  := by
  cases h with
  | number x => exact pure rfl
  | _ => exact raise same_site trivial

theorem expectString_related :
  Action.Related session session' Same w (v.expectString site) (v'.expectString site')
  := by
  cases h with
  | string s => exact pure rfl
  | _ => exact raise same_site trivial

theorem expectBool_related :
  Action.Related session session' Same w (v.expectBool site) (v'.expectBool site')
  := by
  cases h with
  | bool b => exact pure rfl
  | _ => exact raise same_site trivial

theorem expectArray_related :
  Action.Related session session'
    (fun (w : World τ) xs ys => Alike w.toPairing (.deferreds xs.toList) (.deferreds ys.toList)) w
    (v.expectArray site) (v'.expectArray site')
  := by
  cases h with
  | array elements => exact pure elements
  | _ => exact raise same_site trivial

theorem expectFunction_related :
  Action.Related session session'
    (fun (w : World τ) f g => Alike w.toPairing (.function f) (.function g)) w
    (v.expectFunction site) (v'.expectFunction site')
  := by
  cases h with
  | function function => exact pure function
  | _ => exact raise same_site trivial

theorem expectObject_related :
  Action.Related session session' Paired w (v.expectObject site) (v'.expectObject site')
  := by
  cases h with
  | object object => exact pure object
  | _ => exact raise same_site trivial

end

section

variable {d d' : Deferred} (h : d.Matches w.toPairing d')

include h

theorem numberArgument_related :
  Action.Related session session' Same w (numberArgument d) (numberArgument d')
  := by
  apply (force_related h).bind
  intro w' hle v v' hv
  exact expectNumber_related hv Terms.agrees_rfl

theorem stringArgument_related :
  Action.Related session session' Same w (stringArgument d) (stringArgument d')
  := by
  apply (force_related h).bind
  intro w' hle v v' hv
  exact expectString_related hv Terms.agrees_rfl

end

/-! ### Output -/

theorem elementDocuments_related (done : List Document) {ds ds' : List Deferred}
    (h : Alike w.toPairing (.deferreds ds) (.deferreds ds')) :
  Action.Related session session' Same w (elementDocuments done ds) (elementDocuments done ds')
  := by
  induction ds generalizing w done ds' with
  | nil =>
    cases h
    exact pure rfl
  | cons d ds ih =>
    cases h with
    | cons head tail =>
      apply (force_related (.alike head)).bind
      intro w₁ hle₁ v v' hv
      apply (document_related hv).bind
      intro w₂ hle₂ document _ hdocument
      cases hdocument
      exact ih _ (tail.mono (hle₁.trans hle₂))

theorem fieldDocuments_related {o p : Object} (done : List (String × Document))
    {names : List Name} (h : w.object o p) (known : ∀ name ∈ names, w.name name) :
  Action.Related session session' Same w (fieldDocuments o done names)
    (fieldDocuments p done names)
  := by
  induction names generalizing w done with
  | nil => exact pure rfl
  | cons name names ih =>
    apply (textOf_related (known name List.mem_cons_self)).bind
    intro w₁ hle₁ key _ hkey
    cases hkey
    apply (read_related Terms.agrees_rfl 0 (Pairing.object_mono hle₁ h)
      (Pairing.name_mono hle₁ (known name List.mem_cons_self))).bind
    intro w₂ hle₂ v v' hv
    apply (document_related hv).bind
    intro w₃ hle₃ document _ hdocument
    cases hdocument
    have hle := (hle₁.trans hle₂).trans hle₃
    apply ih _ (Pairing.object_mono hle h)
    intro other hother
    exact Pairing.name_mono hle (known other (List.mem_cons_of_mem _ hother))

/-- The names of an object's fields are known. -/
theorem Object.Alike.known {u : Pairing τ} {o p : Object} (h : o.Alike u p) :
  ∀ field ∈ o.visibility, u.name field.1
  := by
  have hrefine : ∀ (name : Name) (v : Visibility) (seen : List (Name × Visibility)),
      u.name name → (∀ field ∈ seen, u.name field.1) →
      ∀ field ∈ refineVisibility name v seen, u.name field.1 := by
    intro name v seen hname hseen
    induction seen with
    | nil =>
      intro field hfield
      rw [List.mem_singleton.mp hfield]
      exact hname
    | cons first rest ih =>
      obtain ⟨n, v'⟩ := first
      intro field hfield
      have hrest := ih fun field h => hseen field (List.mem_cons_of_mem _ h)
      rw [refineVisibility] at hfield
      split at hfield
      case isTrue =>
        obtain rfl | hfield := List.mem_cons.mp hfield
        · exact hseen (n, v') List.mem_cons_self
        · exact hseen field (List.mem_cons_of_mem _ hfield)
      case isFalse =>
        obtain rfl | hfield := List.mem_cons.mp hfield
        · exact hseen (n, v') List.mem_cons_self
        · exact hrest field hfield
  have hover : ∀ seen : List (Name × Visibility), (∀ field ∈ seen, u.name field.1) →
      ∀ field ∈ o.visibilityOver seen, u.name field.1 := by
    induction h with
    | @leaf l l' leaf =>
      intro seen hseen
      rw [Object.visibilityOver]
      have hfields := leaf.name
      revert hfields
      induction l.fields generalizing seen with
      | nil => exact fun _ => hseen
      | cons field fields ih =>
        intro hfields
        apply ih
        · exact hrefine _ _ _ (hfields field List.mem_cons_self) hseen
        · exact fun other h => hfields other (List.mem_cons_of_mem _ h)
    | join sized left right ihleft ihright =>
      intro seen hseen
      exact ihright _ (ihleft _ hseen)
    | regroup exact first second third inner total ihfirst ihsecond ihthird =>
      intro seen hseen
      exact ihthird _ (ihsecond _ (ihfirst _ hseen))
    | ungroup exact first second third inner total ihfirst ihsecond ihthird =>
      intro seen hseen
      exact ihthird _ (ihsecond _ (ihfirst _ hseen))
  exact hover [] (by simp)

theorem sortedFields_related {o p : Object} (h : w.object o p) (includeHidden : Bool) :
  Action.Related session session' KnownNames w (sortedFields o includeHidden)
    (sortedFields p includeHidden)
  := by
  rw [sortedFields, sortedFields, ← (w.alike h).fieldNames_eq]
  have known : ∀ name ∈ o.fieldNames includeHidden, w.name name := by
    intro name hname
    obtain ⟨field, hfield, rfl⟩ := List.mem_map.mp hname
    exact (w.alike h).known field (List.mem_of_mem_filter hfield)
  exact take (Operation.Related.sort known)

theorem computeDocument_related {v v' : Value} (h : v.Matches w.toPairing v') :
  Action.Related session session' Same w (computeDocument v) (computeDocument v')
  := by
  cases h with
  | null => exact pure rfl
  | bool b => exact pure rfl
  | number x => exact pure rfl
  | string s => exact pure rfl
  | function function => exact raiseHere trivial
  | array elements =>
    apply (elementDocuments_related [] elements).bind
    intro w' hle documents _ hdocuments
    cases hdocuments
    exact pure rfl
  | object object =>
    apply (check_related object).bind
    intro w₁ hle₁ _ _ _
    have object := Pairing.object_mono hle₁ object
    apply (sortedFields_related object false).bind
    rintro w₂ hle₂ names _ ⟨rfl, known⟩
    apply (fieldDocuments_related [] (Pairing.object_mono hle₂ object) known).bind
    intro w₃ hle₃ documents _ hdocuments
    cases hdocuments
    exact pure rfl

theorem manifest_related (layout : Layout) {v v' : Value} (h : v.Matches w.toPairing v') :
  Action.Related session session' Same w (v.manifest layout) (v'.manifest layout)
  := by
  apply (document_related h).bind
  intro w' hle document _ hdocument
  cases hdocument
  exact pure rfl

theorem displayed_related {v v' : Value} (h : v.Matches w.toPairing v') :
  Action.Related session session' Same w v.displayed v'.displayed
  := by
  have hmanifest : Action.Related session session' Same w (v.manifest .singleLine)
      (v'.manifest .singleLine) := manifest_related .singleLine h
  cases h with
  | string s => exact pure rfl
  | _ => exact hmanifest

/-! ### Comparison -/

theorem elementsEqual_related {xs ys xs' ys' : List Deferred}
    (hx : Alike w.toPairing (.deferreds xs) (.deferreds xs'))
    (hy : Alike w.toPairing (.deferreds ys) (.deferreds ys')) :
  Action.Related session session' Same w (elementsEqual xs ys) (elementsEqual xs' ys')
  := by
  induction xs generalizing w xs' ys ys' with
  | nil =>
    cases hx
    cases hy <;> exact pure rfl
  | cons x xs ih =>
    cases hx with
    | cons headx tailx =>
      cases hy with
      | nil => exact pure rfl
      | cons heady taily =>
        apply (force_related (.alike headx)).bind
        intro w₁ hle₁ v v' hv
        apply (force_related (.alike (heady.mono hle₁))).bind
        intro w₂ hle₂ u u' hu
        apply (equal_related (hv.mono hle₂) hu).bind
        intro w₃ hle₃ same _ hsame
        cases hsame
        have hle := (hle₁.trans hle₂).trans hle₃
        cases same with
        | true => exact ih (tailx.mono hle) (taily.mono hle)
        | false => exact pure rfl

theorem fieldsEqual_related {a b a' b' : Object} {names : List Name} (ha : w.object a a')
    (hb : w.object b b') (known : ∀ name ∈ names, w.name name) :
  Action.Related session session' Same w (fieldsEqual a b names) (fieldsEqual a' b' names)
  := by
  induction names generalizing w with
  | nil => exact pure rfl
  | cons name names ih =>
    have hname := known name List.mem_cons_self
    apply (read_related Terms.agrees_rfl 0 ha hname).bind
    intro w₁ hle₁ v v' hv
    apply (read_related Terms.agrees_rfl 0 (Pairing.object_mono hle₁ hb)
      (Pairing.name_mono hle₁ hname)).bind
    intro w₂ hle₂ u u' hu
    apply (equal_related (hv.mono hle₂) hu).bind
    intro w₃ hle₃ same _ hsame
    cases hsame
    have hle := (hle₁.trans hle₂).trans hle₃
    cases same with
    | false => exact pure rfl
    | true =>
      apply ih (Pairing.object_mono hle ha) (Pairing.object_mono hle hb)
      intro other hother
      exact Pairing.name_mono hle (known other (List.mem_cons_of_mem _ hother))

theorem size_eq_of_alike {xs ys : Array Deferred}
    (h : Alike w.toPairing (.deferreds xs.toList) (.deferreds ys.toList)) :
  xs.size = ys.size
  := (alike_deferreds_iff.mp h).length_eq

theorem computeEqual_related {x y x' y' : Value} (hx : x.Matches w.toPairing x')
    (hy : y.Matches w.toPairing y') :
  Action.Related session session' Same w (computeEqual x y) (computeEqual x' y')
  := by
  cases hx with
  | array elements =>
    cases hy with
    | array elements' =>
      rw [computeEqual, computeEqual, size_eq_of_alike elements, size_eq_of_alike elements']
      split
      · exact pure rfl
      · exact elementsEqual_related elements elements'
    | _ => exact pure rfl
  | object object =>
    cases hy with
    | object object' =>
      apply (sortedFields_related object false).bind
      rintro w₁ hle₁ names _ ⟨rfl, known⟩
      have object := Pairing.object_mono hle₁ object
      have object' := Pairing.object_mono hle₁ object'
      apply (sortedFields_related object' false).bind
      rintro w₂ hle₂ names' _ ⟨rfl, -⟩
      have object := Pairing.object_mono hle₂ object
      have object' := Pairing.object_mono hle₂ object'
      split
      · exact pure rfl
      · exact fieldsEqual_related object object' fun n h => Pairing.name_mono hle₂ (known n h)
    | _ => exact pure rfl
  | function function =>
    cases hy with
    | function function' => exact raiseHere trivial
    | _ => exact pure rfl
  | _ => cases hy <;> exact pure rfl

theorem primitiveEqual_related {x y x' y' : Value} (hx : x.Matches w.toPairing x')
    (hy : y.Matches w.toPairing y') :
  Action.Related session session' Same w (primitiveEqual x y) (primitiveEqual x' y')
  := by
  unfold primitiveEqual
  rw [hx.typeName_eq, hy.typeName_eq]
  split
  · exact pure rfl
  · cases hx <;> cases hy <;> first | exact pure rfl | exact raiseHere trivial

theorem orderElements_related (operator : BinaryOp) {xs ys xs' ys' : List Deferred}
    (hx : Alike w.toPairing (.deferreds xs) (.deferreds xs'))
    (hy : Alike w.toPairing (.deferreds ys) (.deferreds ys')) :
  Action.Related session session' Same w (orderElements operator xs ys)
    (orderElements operator xs' ys')
  := by
  induction xs generalizing w xs' ys ys' with
  | nil =>
    cases hx
    cases hy <;> exact pure rfl
  | cons x xs ih =>
    cases hx with
    | cons headx tailx =>
      cases hy with
      | nil => exact pure rfl
      | cons heady taily =>
        apply (force_related (.alike headx)).bind
        intro w₁ hle₁ v v' hv
        apply (force_related (.alike (heady.mono hle₁))).bind
        intro w₂ hle₂ u u' hu
        apply (order_related operator (hv.mono hle₂) hu).bind
        intro w₃ hle₃ ordering _ hordering
        cases hordering
        have hle := (hle₁.trans hle₂).trans hle₃
        cases ordering with
        | eq => exact ih (tailx.mono hle) (taily.mono hle)
        | _ => exact pure rfl

theorem computeOrder_related (operator : BinaryOp) {x y x' y' : Value}
    (hx : x.Matches w.toPairing x') (hy : y.Matches w.toPairing y') :
  Action.Related session session' Same w (computeOrder operator x y)
    (computeOrder operator x' y')
  := by
  cases hx with
  | array elements =>
    cases hy with
    | array elements' => exact orderElements_related operator elements elements'
    | _ => exact raiseHere trivial
  | _ => cases hy <;> first | exact pure rfl | exact raiseHere trivial

end Jsonnet
