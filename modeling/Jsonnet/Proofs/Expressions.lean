import Jsonnet.Eval.Run
import Jsonnet.Proofs.Library

/-!
# Expressions in lockstep

Related tasks are carried out by actions in lockstep. For the tasks whose results are kept
this says how the results are computed where they are not known.
-/

namespace Jsonnet

open Action.Related

variable {session session' : Session} {τ : Terms} {w : World τ}

/-! ### Assertions and fields -/

theorem Leaf.Alike.env {l l' : Leaf} {o p : Object} (h : l.Alike w.toPairing l')
    (self : w.self o p) (depth : Nat) :
  Jsonnet.Alike w.toPairing (.env (l.env o depth)) (.env (l'.env p depth))
  := .inside h.scope self

/-- A member that fits the scope of a literal fits in the environment of the literal as
part of an object. -/
theorem Code.Fits.member {body : Code} {l : Leaf} (fits : body.Fits τ l.scope.Binds True)
    (object : Object) (depth : Nat) :
  body.FitsIn τ (l.env object depth)
  := fits.mono (fun _ h => h) fun _ => rfl

theorem acceptAssertion_related {v v' : Value} (h : v.Matches w.toPairing v')
    {site site' : Location} (same_site : τ.Agrees site site') :
  Action.Related session session' Same w (acceptAssertion v site) (acceptAssertion v' site')
  := by
  cases h with
  | bool b =>
    cases b with
    | true => exact pure rfl
    | false => exact raise same_site trivial
  | _ => exact raise same_site trivial

theorem checkAssertion_related {l l' : Leaf} {o p : Object} (h : l.Alike w.toPairing l')
    (self : w.self o p) (depth : Nat) {assertion : Member}
    (fits : assertion.Fits w.toPairing l.scope) :
  Action.Related session session' Same w (checkAssertion o l depth assertion)
    (checkAssertion p l' depth assertion)
  := by
  cases fits with
  | ready value => exact acceptAssertion_related (w.matches_of_alike value) Terms.agrees_rfl
  | code named fits extendsSuper =>
    apply (evaluateIn_related named (fits.member o depth) (h.env self depth)
      Terms.agrees_rfl).bind
    intro w' hle v v' hv
    exact acceptAssertion_related hv Terms.agrees_rfl

theorem checkAssertions_related {o p : Object} (self : w.self o p)
    {as as' : List (Leaf × Nat × Member)}
    (h : List.Forall₂ (fun a a' => a.1.Alike w.toPairing a'.1 ∧ a.2 = a'.2 ∧
      a.2.2.Fits w.toPairing a.1.scope) as as') :
  Action.Related session session' Same w (checkAssertions o as) (checkAssertions p as')
  := by
  induction as generalizing w as' with
  | nil =>
    cases h
    exact pure rfl
  | cons a as ih =>
    obtain _ | @⟨_, a', _, as', head, tail⟩ := h
    obtain ⟨l, depth, assertion⟩ := a
    obtain ⟨l', depth', assertion'⟩ := a'
    obtain ⟨hl, heq, fits⟩ := head
    cases heq
    apply (checkAssertion_related hl self depth fits).bind
    intro w' hle _ _ _
    apply ih (Pairing.self_mono hle self)
    apply tail.imp
    intro b b' hb
    exact ⟨hb.1.of_selves (Pairing.selves_mono hle), hb.2.1, hb.2.2.mono hle⟩

/-- Checking the assertions of objects that may be `self`. -/
theorem objectAssertions_related {o p : Object} (self : w.self o p) :
  Action.Related session session' Same w (checkAssertions o o.assertions)
    (checkAssertions p p.assertions)
  := checkAssertions_related self (w.alike (w.object_of_self self)).assertions

section

variable {site site' : Location} (same_site : τ.Agrees site site')

include same_site

theorem computeField_related {o p : Object} {l l' : Leaf} (h : l.Alike w.toPairing l')
    (self : w.self o p) (depth : Nat) {name : Name} (known : w.name name)
    (found : (l.field? name).isSome = true) :
  Action.Related session session' Matching w (computeField o l depth name site)
    (computeField p l' depth name site')
  := by
  obtain ⟨field, hfield⟩ := Option.isSome_iff_exists.mp found
  have fits := h.fits hfield
  obtain ⟨visibility, member⟩ := field
  unfold computeField
  rw [← h.field?_eq, hfield]
  cases fits with
  | ready value => exact pure (w.matches_of_alike value)
  | code named fits extendsSuper =>
    apply (evaluateIn_related named (fits.member o depth) (h.env self depth)
      Terms.agrees_rfl).bind
    intro w₁ hle₁ v v' hv
    have object := w₁.object_of_self (Pairing.self_mono hle₁ self)
    have hfind : (o.find? (addLeaves depth 1) name).isSome
        = (p.find? (addLeaves depth 1) name).isSome := by
      obtain ⟨ho, hp⟩ | ⟨_, _, ho, hp, -⟩ :=
        optionRel_iff.mp ((w₁.alike object).find? (addLeaves depth 1) name) <;> rw [ho, hp]
      rfl
    dsimp only
    rw [hfind]
    split
    · apply (read_related same_site _ object (Pairing.name_mono hle₁ known)).bind
      intro w₂ hle₂ u u' hu
      exact callBuiltin_related same_site _
        (.cons (.ready hu) (.cons (.ready (hv.mono hle₂)) .nil))
    · exact pure hv

theorem readField_related {o p : Object} (object : w.object o p) (minDepth : Nat) {name : Name}
    (known : w.name name) :
  Action.Related session session' Matching w (readField o minDepth name site)
    (readField p minDepth name site')
  := by
  apply (check_related object).bind
  intro w₁ hle₁ _ _ self
  obtain ⟨ho, hp⟩ | ⟨⟨l, depth⟩, ⟨l', depth'⟩, ho, hp, hl, hdepth⟩ :=
    optionRel_iff.mp ((w₁.alike (w₁.object_of_self self)).find? minDepth name)
  · rw [ho, hp]
    apply (textOf_related (Pairing.name_mono hle₁ known)).bind
    intro w₂ hle₂ s _ hs
    cases hs
    exact raise same_site trivial
  · cases hdepth
    rw [ho, hp]
    exact request (Task.Related.field same_site self (Pairing.name_mono hle₁ known) ho hp)

end

/-! ### Parts of expressions -/

theorem variableValue_related {e e' : Env} (env : Alike w.toPairing (.env e) (.env e'))
    {name : Name} (known : w.name name) (bound : τ.closed → e.scope.Binds name) :
  Action.Related session session' Matching w (variableValue e name) (variableValue e' name)
  := by
  unfold variableValue
  obtain ⟨hn, hn'⟩ | ⟨b, b', hb, hb', hbinding⟩ :=
    optionRel_iff.mp ((alike_env_iff.mp env).1.lookup name)
  · rw [hn, hn']
    apply (textOf_related known).bind
    intro w' hle s _ hs
    cases hs
    apply fail
    apply Terms.Fails.refl
    intro hclosed
    have hbound := bound hclosed
    rw [Scope.Binds, hn] at hbound
    cases hbound
  · rw [hb, hb']
    cases hbinding with
    | bound deferred => exact force_related (.alike deferred)
    | slot slot =>
      apply (take (Operation.Related.slot slot)).bind
      intro w' hle d d' hd
      exact force_related (.alike hd)

theorem literalFields_related {code : Code} {e e' : Env} (named : code.Named w.name)
    (env : Alike w.toPairing (.env e) (.env e')) (done : List (Name × Field))
    (hname : ∀ field ∈ done, w.name field.1)
    (hmember : ∀ field ∈ done, field.2.member.Fits w.toPairing e.scope) (fields : List FieldDef)
    (fits : ∀ field ∈ fields, (code.sibling field.name).FitsIn τ e ∧
      (code.sibling field.body).Fits τ e.scope.Binds True) :
  Action.Related session session'
    (fun (w' : World τ) fields fields' => fields = fields' ∧ (∀ field ∈ fields, w'.name field.1) ∧
      ∀ field ∈ fields, field.2.member.Fits w'.toPairing e.scope) w
    (literalFields code e done fields) (literalFields code e' done fields)
  := by
  induction fields generalizing w done with
  | nil =>
    refine pure ⟨rfl, ?_, ?_⟩
    · exact fun field hfield => hname field (List.mem_reverse.mp hfield)
    · exact fun field hfield => hmember field (List.mem_reverse.mp hfield)
  | cons field rest ih =>
    obtain ⟨fitsName, fitsBody⟩ := fits field List.mem_cons_self
    have ih := fun {w : World τ} named env done hname hmember =>
      @ih w named env done hname hmember fun other h => fits other (List.mem_cons_of_mem _ h)
    apply (evaluate_related (named.sibling field.name) fitsName env).bind
    intro w₁ hle₁ v v' hv
    have hmono : ∀ {w₂ : World τ}, w ≤ w₂ → code.Named w₂.name ∧
        Alike w₂.toPairing (.env e) (.env e') ∧ (∀ field ∈ done, w₂.name field.1) ∧
        ∀ field ∈ done, field.2.member.Fits w₂.toPairing e.scope := by
      intro w₂ hle
      exact ⟨named.mono fun _ => Pairing.name_mono hle, env.mono hle,
        fun field h => Pairing.name_mono hle (hname field h),
        fun field h => (hmember field h).mono hle⟩
    cases hv with
    | null =>
      obtain ⟨named₁, env₁, hname₁, hmember₁⟩ := hmono hle₁
      exact ih named₁ env₁ done hname₁ hmember₁
    | string s =>
      apply (intern_related s).bind
      rintro w₂ hle₂ name _ ⟨rfl, known⟩
      obtain ⟨named₂, env₂, hname₂, hmember₂⟩ := hmono (hle₁.trans hle₂)
      split
      · apply (textOf_related known).bind
        intro w₃ hle₃ text _ htext
        cases htext
        exact raise Terms.agrees_rfl trivial
      · apply ih named₂ env₂
        · intro other hother
          obtain rfl | hother := List.mem_cons.mp hother
          · exact known
          · exact hname₂ other hother
        · intro other hother
          obtain rfl | hother := List.mem_cons.mp hother
          · exact .code (named₂.sibling _) fitsBody _
          · exact hmember₂ other hother
    | _ => exact raise Terms.agrees_rfl trivial

theorem literalObject_related {code : Code} {e e' : Env} (named : code.Named w.name)
    (env : Alike w.toPairing (.env e) (.env e')) {asserts : List NodeId}
    (fitsAsserts : ∀ id ∈ asserts, (code.sibling id).Fits τ e.scope.Binds True)
    {fields : List FieldDef}
    (fitsFields : ∀ field ∈ fields, (code.sibling field.name).FitsIn τ e ∧
      (code.sibling field.body).Fits τ e.scope.Binds True) :
  Action.Related session session' Matching w (literalObject code e asserts fields)
    (literalObject code e' asserts fields)
  := by
  apply (literalFields_related named env [] (by simp) (by simp) fields fitsFields).bind
  rintro w₁ hle₁ fields _ ⟨rfl, hname, hmember⟩
  have hasserts : ∀ member ∈ asserts.map fun id => Member.code (code.sibling id) false,
      member.Fits w₁.toPairing e.scope := by
    intro member hmem
    obtain ⟨id, hid, rfl⟩ := List.mem_map.mp hmem
    have named : code.Named w₁.name := named.mono fun _ => Pairing.name_mono hle₁
    exact .code (named.sibling id) (fitsAsserts id hid) false
  apply (take (Operation.Related.literal ((alike_env_iff.mp env).1.mono hle₁) hname hmember
    hasserts)).bind
  intro w₂ hle₂ o p object
  exact pure (.object object)

theorem positionIn_related (size : Nat) (site : Location) {v v' : Value}
    (h : v.Matches w.toPairing v') :
  Action.Related session session'
    Same w (positionIn size site v)
    (positionIn size site v')
  := by
  apply (expectNumber_related h Terms.agrees_rfl).bind
  intro w' hle x _ hx
  cases hx
  split
  · exact raise Terms.agrees_rfl trivial
  · split
    · exact raise Terms.agrees_rfl trivial
    · exact pure rfl

theorem indexValue_related {t t' v v' : Value} (site : Location)
    (target : t.Matches w.toPairing t') (index : v.Matches w.toPairing v') :
  Action.Related session session' Matching w (indexValue t v site) (indexValue t' v' site)
  := by
  cases target with
  | object object =>
    apply (expectString_related index Terms.agrees_rfl).bind
    intro w₁ hle₁ s _ hs
    cases hs
    apply (intern_related s).bind
    rintro w₂ hle₂ name _ ⟨rfl, known⟩
    exact read_related Terms.agrees_rfl _ (Pairing.object_mono (hle₁.trans hle₂) object) known
  | @array xs ys elements =>
    unfold indexValue
    dsimp only
    rw [size_eq_of_alike elements]
    apply (positionIn_related _ _ index).bind
    intro w' hle position _ hposition
    cases hposition
    apply force_related
    rw [← Array.getElem?_toList, ← Array.getElem?_toList]
    obtain ⟨hx, hy⟩ | ⟨d, d', hx, hy, hd⟩ := optionRel_iff.mp
      (forall₂_getElem? (alike_deferreds_iff.mp (elements.mono hle)) position)
    · rw [hx, hy]
      exact .alike (.ready .null)
    · rw [hx, hy]
      exact .alike hd
  | string s =>
    apply (positionIn_related _ _ index).bind
    intro w' hle position _ hposition
    cases hposition
    exact pure (.string _)
  | _ => exact raise Terms.agrees_rfl trivial

theorem directoryOf_related {arena : Arena} (known : w.name arena.file) :
  Action.Related session session' Same w (directoryOf arena) (directoryOf arena)
  := by
  apply (textOf_related known).bind
  intro w' hle s _ hs
  cases hs
  exact pure rfl

/-- The suspensions of some expressions of a code in alike environments. -/
theorem suspensions_alike {code : Code} {e e' : Env} (named : code.Named w.name)
    (env : Alike w.toPairing (.env e) (.env e')) {context context' : FrameContext}
    (same : τ.Agrees context context') {ids : List NodeId}
    (fits : ∀ id ∈ ids, (code.sibling id).FitsIn τ e) :
  List.Forall₂ (fun s s' => Alike w.toPairing (.suspension s) (.suspension s'))
    (ids.map fun id => .code context e (code.sibling id))
    (ids.map fun id => .code context' e' (code.sibling id))
  := by
  rw [List.forall₂_map_left_iff, List.forall₂_map_right_iff, List.forall₂_same]
  intro id hid
  exact .code same env named (fits id hid)

/-! ### Expressions -/

theorem evaluateCode_related (agrees : session.Agrees session') {code : Code} {e e' : Env}
    (named : code.Named w.name) (fits : code.FitsIn τ e)
    (env : Alike w.toPairing (.env e) (.env e')) :
  Action.Related session session' Matching w (evaluateCode code e) (evaluateCode code e')
  := by
  unfold evaluateCode
  apply (take (Operation.Related.count .expression)).bind
  intro w₁ hle₁ _ _ _
  have named := named.mono fun _ => Pairing.name_mono hle₁
  have env := env.mono hle₁
  have hchild : ∀ {w₂ : World τ}, w₁ ≤ w₂ → ∀ id, ⟨[], false, id⟩ ∈ code.arena.below code.root →
      Action.Related session session' Matching w₂ ((code.sibling id).evaluate e)
        ((code.sibling id).evaluate e') := by
    intro w₂ hle id hid
    exact evaluate_related (named.mono fun _ => Pairing.name_mono hle) (fits.child hid)
      (env.mono hle)
  have hmember : ∀ {id}, ⟨[], true, id⟩ ∈ code.arena.below code.root →
      (code.sibling id).Fits τ e.scope.Binds True := by
    intro id hid
    exact (fits.below hid).mono (by simp) fun _ => trivial
  have hroot := named.root
  dsimp only
  rw [Code.node] at hroot ⊢
  cases hnode : code.arena.node code.root with
  | null => exact pure .null
  | bool b => exact pure (.bool b)
  | number x => exact pure (.number x)
  | string s =>
    rw [hnode] at hroot
    apply (textOf_related hroot).bind
    intro w₂ hle₂ text _ htext
    cases htext
    exact pure (.string _)
  | var name =>
    rw [hnode] at hroot
    exact variableValue_related env hroot fun hclosed => (fits.bound hclosed).root hnode
  | locals binds body =>
    have hbelow : ∀ {id}, id = body ∨ id ∈ (code.arena.readBinds binds).map Bind.body →
        (code.sibling id).Fits τ (fun name =>
          name ∈ (code.arena.readBinds binds).map Bind.name ∨ e.scope.Binds name)
          e.self?.isSome := by
      intro id hid
      have hid : ⟨(code.arena.readBinds binds).map Bind.name, false, id⟩
          ∈ code.arena.below code.root := by
        rw [Arena.below, hnode]
        simpa using hid
      exact (fits.below hid).mono (fun _ h => h) (by simp)
    apply (take (Operation.Related.bindLocals _ named env fun bind hbind =>
      hbelow (.inr (List.mem_map_of_mem hbind)))).bind
    intro w₂ hle₂ inner inner' opened
    have fits : (code.sibling body).FitsIn τ inner := by
      apply (hbelow (.inl rfl)).mono opened.binds
      rw [opened.self]
      exact id
    exact evaluate_related ((named.mono fun _ => Pairing.name_mono hle₂).sibling body) fits
      opened.env
  | function params body =>
    have hbody : ⟨code.arena.readParams params, false, body⟩ ∈ code.arena.below code.root := by
      simp [Arena.below, hnode]
    exact pure (.function (.closure env (named.params params) (named.sibling body)
      ((fits.below hbody).mono (fun _ h => h) (by simp))))
  | apply target arguments =>
    apply (hchild le_rfl target (by simp [Arena.below, hnode])).bind
    intro w₂ hle₂ v v' hv
    apply (expectFunction_related hv Terms.agrees_rfl).bind
    intro w₃ hle₃ f g hf
    apply session_bind
    rw [agrees.argumentName]
    have hle := hle₂.trans hle₃
    apply (shareAll_related (suspensions_alike (named.mono fun _ => Pairing.name_mono hle)
      (env.mono hle) Terms.agrees_rfl fun id hid => fits.child (by
        simp [Arena.below, hnode, hid]))).bind
    intro w₄ hle₄ ds ds' hds
    exact call_related Terms.agrees_rfl (hf.mono hle₄) hds
  | array elements =>
    apply session_bind
    rw [agrees.elementName]
    apply (shareAll_related (suspensions_alike named env Terms.agrees_rfl fun id hid =>
      fits.child (by simp [Arena.below, hnode, hid]))).bind
    intro w₂ hle₂ ds ds' hds
    exact pure (.array hds)
  | object asserts fields =>
    apply literalObject_related named env
    · intro id hid
      exact hmember (by simp [Arena.below, hnode, hid])
    · intro field hfield
      have hname : ⟨[], false, field.name⟩ ∈ code.arena.below code.root := by
        simp only [Arena.below, hnode]
        simp only [List.mem_append, List.mem_map]
        exact .inl ⟨_, ⟨field, hfield, rfl⟩, rfl⟩
      have hbody : ⟨[], true, field.body⟩ ∈ code.arena.below code.root := by
        simp only [Arena.below, hnode]
        simp only [List.mem_append, List.mem_map]
        exact .inr ⟨_, .inr ⟨field, hfield, rfl⟩, rfl⟩
      exact ⟨fits.child hname, hmember hbody⟩
  | binary op left right =>
    have hright : ⟨[], false, right⟩ ∈ code.arena.below code.root := by
      simp [Arena.below, hnode]
    apply (hchild le_rfl left (by simp [Arena.below, hnode])).bind
    intro w₂ hle₂ v v' hv
    split
    · apply session_bind
      rw [agrees.rightOperandName]
      refine callBuiltin_related Terms.agrees_rfl _
        (.cons (.ready hv) (.cons (.alike (.suspended ?_)) .nil))
      exact .code Terms.agrees_rfl (env.mono hle₂) (named.mono fun _ => Pairing.name_mono hle₂)
        (fits.child hright)
    · simp only [pure_bind]
      apply (hchild hle₂ right hright).bind
      intro w₃ hle₃ u u' hu
      exact callBuiltin_related Terms.agrees_rfl _
        (.cons (.ready (hv.mono hle₃)) (.cons (.ready hu) .nil))
  | unary op operand =>
    apply (hchild le_rfl operand (by simp [Arena.below, hnode])).bind
    intro w₂ hle₂ v v' hv
    exact callBuiltin_related Terms.agrees_rfl _ (.cons (.ready hv) .nil)
  | conditional condition whenTrue whenFalse =>
    apply (hchild le_rfl condition (by simp [Arena.below, hnode])).bind
    intro w₂ hle₂ v v' hv
    apply (expectBool_related hv Terms.agrees_rfl).bind
    intro w₃ hle₃ decision _ hdecision
    cases hdecision
    cases decision with
    | true => exact hchild (hle₂.trans hle₃) whenTrue (by simp [Arena.below, hnode])
    | false => exact hchild (hle₂.trans hle₃) whenFalse (by simp [Arena.below, hnode])
  | index target position =>
    apply (hchild le_rfl target (by simp [Arena.below, hnode])).bind
    intro w₂ hle₂ t t' ht
    apply (hchild hle₂ position (by simp [Arena.below, hnode])).bind
    intro w₃ hle₃ v v' hv
    exact indexValue_related _ (ht.mono hle₃) hv
  | superIndex position =>
    obtain ⟨-, hself, hdepth⟩ := alike_env_iff.mp env
    rw [hdepth]
    obtain ⟨ho, hp⟩ | ⟨o, p, ho, hp, self⟩ := optionRel_iff.mp hself
    · rw [ho, hp]
      exact raise Terms.agrees_rfl (fits.not_housed ho (by rw [Code.node, hnode]; rfl))
    · rw [ho, hp]
      apply (hchild le_rfl position (by simp [Arena.below, hnode])).bind
      intro w₂ hle₂ v v' hv
      apply (expectString_related hv Terms.agrees_rfl).bind
      intro w₃ hle₃ s _ hs
      cases hs
      apply (intern_related s).bind
      rintro w₄ hle₄ name _ ⟨rfl, known⟩
      exact read_related Terms.agrees_rfl _
        (Pairing.object_mono ((hle₂.trans hle₃).trans hle₄) (w₁.object_of_self self)) known
  | selfRef =>
    obtain ⟨-, hself, -⟩ := alike_env_iff.mp env
    obtain ⟨ho, hp⟩ | ⟨o, p, ho, hp, self⟩ := optionRel_iff.mp hself
    · rw [ho, hp]
      exact raise Terms.agrees_rfl (fits.not_housed ho (by rw [Code.node, hnode]; rfl))
    · rw [ho, hp]
      exact pure (.object (w₁.object_of_self self))
  | error message =>
    apply (hchild le_rfl message (by simp [Arena.below, hnode])).bind
    intro w₂ hle₂ v v' hv
    apply (expectString_related hv Terms.agrees_rfl).bind
    intro w₃ hle₃ s _ hs
    cases hs
    exact raise Terms.agrees_rfl trivial
  | importCode path =>
    rw [hnode] at hroot
    apply (directoryOf_related named.file).bind
    intro w₂ hle₂ directory _ hdirectory
    cases hdirectory
    apply (take (Operation.Related.imported _ Terms.agrees_rfl
      (Pairing.name_mono hle₂ hroot))).bind
    intro w₃ hle₃ d d' hd
    exact force_related (.alike hd)
  | importText path =>
    rw [hnode] at hroot
    apply (directoryOf_related named.file).bind
    intro w₂ hle₂ directory _ hdirectory
    cases hdirectory
    apply (textOf_related (Pairing.name_mono hle₂ hroot)).bind
    intro w₃ hle₃ text _ htext
    cases htext
    apply (take (Operation.Related.importText _ _ Terms.agrees_rfl)).bind
    intro w₄ hle₄ file _ hfile
    cases hfile
    exact pure (.string _)

/-! ### Programs -/

theorem parameterNames_related {f g : Function}
    (h : Alike w.toPairing (.function f) (.function g)) :
  Action.Related session session' KnownNames w (parameterNames f) (parameterNames g)
  := by
  cases h with
  | closure env params_named body_named fits => exact pure ⟨rfl, params_named⟩
  | builtin b => exact take (Operation.Related.internAll b.params)

theorem matchArguments_related (site : Location) {done done' : List Deferred}
    (hdone : Alike w.toPairing (.deferreds done) (.deferreds done')) {params : List Name}
    (known : ∀ param ∈ params, w.name param) :
  Action.Related session session' AlikeDeferreds w
    (matchArguments session.arguments site done params)
    (matchArguments session.arguments site done' params)
  := by
  induction params generalizing w done done' with
  | nil =>
    refine pure ?_
    rw [AlikeDeferreds, alike_deferreds_iff]
    exact List.rel_reverse (alike_deferreds_iff.mp hdone)
  | cons param params ih =>
    have hparam := known param List.mem_cons_self
    unfold matchArguments
    cases hgiven : session.arguments.lookup param with
    | none =>
      apply (textOf_related hparam).bind
      intro w' hle s _ hs
      cases hs
      exact raise Terms.agrees_rfl trivial
    | some given =>
      apply (take (Operation.Related.argument hgiven hparam)).bind
      intro w' hle d d' hd
      apply ih (.cons hd (hdone.mono hle))
      intro other hother
      exact Pairing.name_mono hle (known other (List.mem_cons_of_mem _ hother))

theorem applyArguments_related (agrees : session.Agrees session')
    (hgiven : ∀ given ∈ session.arguments, w.name given.1) {v v' : Value}
    (h : v.Matches w.toPairing v') (site : Location) :
  Action.Related session session' Matching w (applyArguments v site) (applyArguments v' site)
  := by
  cases h with
  | function function =>
    apply (parameterNames_related function).bind
    rintro w₁ hle₁ params _ ⟨rfl, known⟩
    apply session_bind
    rw [agrees.arguments]
    dsimp only
    split
    · rename_i name external hfind
      have hname := hgiven _ (List.mem_of_find?_eq_some hfind)
      apply (textOf_related (Pairing.name_mono hle₁ hname)).bind
      intro w₂ hle₂ s _ hs
      cases hs
      exact raise Terms.agrees_rfl trivial
    · apply (matchArguments_related _ .nil known).bind
      intro w₂ hle₂ ds ds' hds
      exact call_related Terms.agrees_rfl ((function.mono hle₁).mono hle₂) hds
  | null => exact pure .null
  | bool b => exact pure (.bool b)
  | number x => exact pure (.number x)
  | string s => exact pure (.string s)
  | array elements => exact pure (.array elements)
  | object object => exact pure (.object object)

section

variable (agrees : session.Agrees session') {code : Code} (named : code.Named w.name)
  (fits : code.FitsIn τ session.base)
  (base : Alike w.toPairing (.env session.base) (.env session.base))
  (hgiven : ∀ given ∈ session.arguments, w.name given.1)

include agrees named fits base hgiven

theorem computeProgram_related :
  Action.Related session session' Matching w (computeProgram code) (computeProgram code)
  := by
  apply session_bind
  rw [agrees.base]
  apply (evaluate_related named fits base).bind
  intro w₁ hle₁ v v' hv
  exact applyArguments_related agrees (fun given h => Pairing.name_mono hle₁ (hgiven given h))
    hv _

theorem computeOutput_related :
  Action.Related session session' Same w (computeOutput code) (computeOutput code)
  := by
  apply (computeProgram_related agrees named fits base hgiven).bind
  intro w₁ hle₁ v v' hv
  apply (manifest_related .multiLine hv).bind
  intro w₂ hle₂ text _ htext
  cases htext
  exact pure rfl

end

/-! ### Tasks -/

/-- Whether the result of a task is kept. -/
def Task.isKept : Task → Bool
  | .force _ | .check _ | .field .. => true
  | _ => false

/-- Related tasks whose results are not kept are carried out in lockstep. -/
theorem Task.Related.action (agrees : session.Agrees session') {task task' : Task}
    {S : World τ → task.Result → task'.Result → Prop} (h : task.Related session w task' S)
    (hkept : task.isKept = false) (a b : State) :
  Action.Related session session' S w (task.action a) (task'.action b)
  := by
  cases h with
  | evaluate named fits env => exact evaluateCode_related agrees named fits env
  | force thunk => cases hkept
  | call same_site function arguments => exact callFunction_related same_site function arguments
  | callBuiltin b same_site arguments =>
    exact callFunction_builtin_related same_site b arguments
  | builtin b arity arguments => exact applyBuiltin_related agrees b arity arguments
  | check object => cases hkept
  | readField minDepth same_site object known =>
    exact readField_related same_site object minDepth known
  | field => cases hkept
  | document value => exact computeDocument_related value
  | equal left right => exact computeEqual_related left right
  | order operator left right => exact computeOrder_related operator left right
  | program named fits base hgiven => exact computeProgram_related agrees named fits base hgiven
  | output named fits base hgiven => exact computeOutput_related agrees named fits base hgiven

/-- Fields that are found under one name at one depth of objects that may be `self` are
computed in lockstep. -/
theorem field_related {o p : Object} {l l' : Leaf} {minDepth depth : Nat} {name : Name}
    (self : w.self o p) (known : w.name name) (hit : o.find? minDepth name = some (l, depth))
    (hit' : p.find? minDepth name = some (l', depth)) {site site' : Location}
    (same_site : τ.Agrees site site') :
  Action.Related session session' Matching w (computeField o l depth name site)
    (computeField p l' depth name site')
  := by
  have hfind := (w.alike (w.object_of_self self)).find? minDepth name
  rw [hit, hit'] at hfind
  cases hfind with
  | some hl =>
    exact computeField_related same_site hl.1 self depth known (Object.mem_of_findFrom hit).2

end Jsonnet
