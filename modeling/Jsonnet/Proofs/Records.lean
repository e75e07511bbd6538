import Jsonnet.Proofs.Reference

/-!
# Records of reference runs

What an evaluator keeps is confirmed by records: stretches of runs of the reference
evaluator, with what stood for what before and after them. A record can be made use of
at any later time, because another run of the reference evaluator that begins with what
stands for the same does what the recorded run did.
-/

namespace Jsonnet

/-! ### Pairings through a run in the middle -/

namespace World

/-- What stands for the same in the middle; objects only as far as they may be `self`. -/
def between (u w : World .loose) : World .loose where
  toPairing := u.toPairing.selves.comp w.toPairing.selves.inverse
  object_of_self := id
  alike := by
    rintro o o' ⟨p, hu, hw⟩
    have h := (u.alike (u.object_of_self hu)).of_selves (w := u.toPairing.selves) le_rfl
    have h' := (w.alike (w.object_of_self hw)).of_selves (w := w.toPairing.selves) le_rfl
    exact h.trans h'.symm

/-- What is alike to the same in the middle is alike. -/
theorem between_alike {u w : World .loose} {x y z : Datum} (h : Alike u.toPairing x y)
    (h' : Alike w.toPairing z y) :
  Alike (u.between w).toPairing x z
  := (h.of_selves (w := u.toPairing.selves) le_rfl).trans
    (h'.of_selves (w := w.toPairing.selves) le_rfl).symm

/-- A world to which is added what a second world makes of a third one. -/
def through (w u v : World .loose) : World .loose :=
  w.extend (u.toPairing.inverse.comp v.toPairing)
    (by
      rintro o p ⟨o', hu, hv⟩
      exact .inr ⟨o', u.object_of_self hu, v.object_of_self hv⟩)
    (by
      rintro o p ⟨o', hu, hv⟩
      exact ((u.alike hu).symm.trans (v.alike hv)).mono (Pairing.le_join_right _ _))

theorem le_through (w u v : World .loose) :
  w ≤ w.through u v
  := Pairing.le_join_left _ _

/-- Results that match what a third world matches. -/
theorem through_matches (w : World .loose) {u v : World .loose} {x y z : Value} (h : x.Matches u.toPairing y)
    (h' : x.Matches v.toPairing z) :
  y.Matches (w.through u v).toPairing z
  := (h.symm.trans h').mono (Pairing.le_join_right _ _)

end World

/-! ### States of the reference evaluator -/

/-- A state of the reference evaluator, as it stands to a state that keeps results. -/
structure State.Mirrors (session : Session) (w : World .loose) (O : Origins) (a : State)
    (O' : Origins) (b : State) : Prop where
  fits : w.Fits session O a O' b
  pending : a.Pending O
  self : ∀ o p, w.self o p → o.isSettled a = true

section

variable {session : Session} {w w₀ : World .loose} {O O₀ O' P' : Origins} {a a₀ b b' : State}

theorem State.Mirrors.keeps (h : a.Mirrors session w O O' b) (hO' : O' ≤ P') (hb : b.Keeps b')
    (stems' : b'.Stems session P') :
  a.Mirrors session w O P' b'
  where
  fits := h.fits.keeps le_rfl hO' (.refl a) hb h.fits.stems stems'
  pending := h.pending
  self := h.self

/-- Two states of the reference evaluator that stand to the same state. -/
def Repetition.ofMirrors (w₀ w : World .loose) (a₀ a : State) (names : Interner) (fixed : Prop) :
    Repetition :=
  ⟨w₀.between w, a₀, a, names, fixed⟩

/-- The reference evaluator can repeat what it did in a state that stood to the same. -/
theorem State.Mirrors.repeats (h₀ : a₀.Mirrors session w₀ O₀ O' b)
    (h : a.Mirrors session w O O' b) {names : Interner} {fixed : Prop}
    (hnames : (Naming.below names fixed).rel a₀.names a.names) :
  (Repetition.ofMirrors w₀ w a₀ a names fixed).Inv session ⟨w₀.between w, O₀, O⟩ a₀ a
  where
  le := le_rfl
  fits := {
    name := by
      rintro n ⟨hn, hn'⟩
      exact ⟨(h₀.fits.name n hn).1, (h.fits.name n hn').1⟩
    thunk := by
      rintro t t' ⟨m, hm, hm'⟩
      obtain ⟨s, p, hs, hp, alike⟩ := h₀.fits.thunk t m hm
      obtain ⟨s', p', hs', hp', alike'⟩ := h.fits.thunk t' m hm'
      cases hp.symm.trans hp'
      exact ⟨s, s', hs, hs', World.between_alike alike alike'⟩
    slot := by
      rintro i j ⟨m, hm, hm'⟩
      obtain ⟨d, p, hd, hp, alike⟩ := h₀.fits.slot i m hm
      obtain ⟨d', p', hd', hp', alike'⟩ := h.fits.slot j m hm'
      cases hp.symm.trans hp'
      exact ⟨d, d', hd, hd', World.between_alike alike alike'⟩
    object := by
      rintro o o' ⟨p, hp, hp'⟩
      exact ⟨(h₀.fits.object o p (w₀.object_of_self hp)).1,
        (h.fits.object o' p (w.object_of_self hp')).1⟩
    library := ⟨session.library, h₀.fits.library, h.fits.library⟩
    stems := h₀.fits.stems
    stems' := h.fits.stems }
  names := hnames
  pending := h₀.pending
  pending' := h.pending
  size := le_rfl
  size' := le_rfl
  frame _ _ := rfl
  frame' _ _ := rfl
  object _ _ hop := .inl hop
  unique := by
    rintro o o' o₂ o₂' ⟨p, hp, -⟩ - ⟨hnew, -⟩
    have hlt := (Repetition.index_lt h₀.fits (w₀.object_of_self hp)).1
    exact absurd hlt (Nat.not_lt.mpr hnew)
  self := by
    rintro o o' ⟨p, hp, hp'⟩
    exact ⟨h₀.self o p hp, h.self o' p hp'⟩

end

/-! ### Records -/

/-- A record of a stretch of a reference run: the states before and after it, as they
stand to a state that keeps results. -/
structure Record (session : Session) (w₀ w₁ : World .loose) (a₀ a₁ : State) (O' : Origins) (b : State) :
    Prop where
  le : w₀ ≤ w₁
  before : ∃ O, a₀.Mirrors session w₀ O O' b
  after : ∃ O, a₁.Mirrors session w₁ O O' b
  names : a₁.names ≤ b.names
  hasSlots : a₁.HasSlots
  passed : ∀ o p, w₁.object o p → a₁.checks[o.id.index]? = some .passed →
    b.checks[p.id.index]? = some .passed
  unique : ∀ o p p', w₁.object o p → w₁.object o p' → p = p'

/-- A record is one for later states as well. -/
theorem Record.keeps {session : Session} {w₀ w₁ : World .loose} {a₀ a₁ b b' : State} {O' P' : Origins}
    (h : Record session w₀ w₁ a₀ a₁ O' b) (hO' : O' ≤ P') (hb : b.Keeps b')
    (stems' : b'.Stems session P') :
  Record session w₀ w₁ a₀ a₁ P' b'
  where
  le := h.le
  before := h.before.imp fun _ h => h.keeps hO' hb stems'
  after := h.after.imp fun _ h => h.keeps hO' hb stems'
  names := h.names.trans hb.names
  hasSlots := h.hasSlots
  passed o p hop ha := hb.passed (h.passed o p hop ha)
  unique := h.unique

/-- A record of a computation with a property that came to a result. -/
inductive Recorded (session : Session) (O' : Origins) (b : State) {α β : Type}
    (R : World .loose → α → β → Prop) (Begins : World .loose → Action α → Prop) (result : β) : Prop where
  | intro {w₀ w₁ : World .loose} {a₀ a₁ : State} {action : Action α} {fuel : Nat} {recorded : α}
      (record : Record session w₀ w₁ a₀ a₁ O' b) (begins : Begins w₀ action)
      (run : (action session).resolve session (Task.perform session fuel) a₀
        = some (.ok recorded, a₁))
      (related : R w₁ recorded result) :
    Recorded session O' b R Begins result

theorem Recorded.keeps {session : Session} {O' P' : Origins} {b b' : State} {α β : Type}
    {R : World .loose → α → β → Prop} {Begins Begins' : World .loose → Action α → Prop} {result : β}
    (h : Recorded session O' b R Begins result) (hO' : O' ≤ P') (hb : b.Keeps b')
    (stems' : b'.Stems session P') (hbegins : ∀ w x, Begins w x → Begins' w x) :
  Recorded session P' b' R Begins' result
  := by
  cases h with
  | intro record begins run related =>
    exact .intro (record.keeps hO' hb stems') (hbegins _ _ begins) run related

/-! ### What records are about -/

/-- A computation of what a thunk was made from. -/
def BeginsThunk (O' : Origins) (index : Nat) (w : World .loose) (x : Action Value) : Prop :=
  ∃ s s', O'.thunks[index]? = some s' ∧ Alike w.toPairing (.suspension s) (.suspension s') ∧
    x = s.run

/-- A computation of the field with a key. -/
def BeginsField (O' : Origins) (key : FieldKey) (w : World .loose) (x : Action Value) : Prop :=
  ∃ o p l minDepth site, w.self o p ∧ O'.objects[key.object.index]? = some p ∧
    w.name key.name ∧ o.find? minDepth key.name = some (l, key.depth) ∧
    key.depth < maxLeaves ∧ x = computeField o l key.depth key.name site

/-- A computation of the assertions of an object. -/
def BeginsCheck (p : Object) (w : World .loose) (x : Action Unit) : Prop :=
  ∃ o, w.self o p ∧ x = checkAssertions o o.assertions

/-- A state that keeps results, all of which are confirmed by records. -/
structure State.Confirmed (session : Session) (O' : Origins) (b : State) : Prop where
  stems : b.Stems session O'
  hasSlots : b.HasSlots
  pending : ∀ {i : Nat} {suspension : Suspension}, b.thunks[i]? = some (.pending suspension) →
    O'.thunks[i]? = some suspension
  ready : ∀ {i : Nat} {value : Value}, b.thunks[i]? = some (.ready value) →
    Recorded session O' b Matching (BeginsThunk O' i) value
  field : ∀ {key : FieldKey} {value : Value}, b.fields[key]? = some value →
    Recorded session O' b Matching (BeginsField O' key) value
  passed : ∀ {p : Object}, O'.objects[p.id.index]? = some p → p.hasAsserts = true →
    b.checks[p.id.index]? = some .passed → Recorded session O' b Same (BeginsCheck p) ()

section

variable {session : Session} {O' P' : Origins} {b b' : State}

theorem BeginsThunk.mono (hO' : O' ≤ P') {index : Nat} {w : World .loose} {x : Action Value}
    (h : BeginsThunk O' index w x) :
  BeginsThunk P' index w x
  := by
  obtain ⟨s, s', hs', h⟩ := h
  exact ⟨s, s', Origins.thunk_mono hO' hs', h⟩

theorem BeginsField.mono (hO' : O' ≤ P') {key : FieldKey} {w : World .loose} {x : Action Value}
    (h : BeginsField O' key w x) :
  BeginsField P' key w x
  := by
  obtain ⟨o, p, l, minDepth, site, self, hp, h⟩ := h
  exact ⟨o, p, l, minDepth, site, self, Origins.object_mono hO' hp, h⟩

namespace State.Confirmed

/-- What is confirmed stays so where the state gains pending thunks and unchecked
objects. -/
theorem adds (h : b.Confirmed session O') (adds : b.Adds session O' P' b') (hb : b.Keeps b')
    (hasSlots : b'.HasSlots) :
  b'.Confirmed session P'
  := by
  obtain ⟨new, hP', hthunks⟩ := adds.thunks
  have hcell : ∀ {i : Nat} {cell : Cell}, b'.thunks[i]? = some cell → b.thunks[i]? = some cell ∨
      ∃ s, cell = .pending s ∧ P'.thunks[i]? = some s := by
    intro i cell hi
    rw [hthunks, ← Array.getElem?_toList, Array.toList_appendList, List.getElem?_append] at hi
    split at hi
    case isTrue hlt =>
      rw [Array.getElem?_toList] at hi
      exact .inl hi
    case isFalse hge =>
      rw [List.getElem?_map] at hi
      obtain ⟨s, hs, rfl⟩ := Option.map_eq_some_iff.mp hi
      refine .inr ⟨s, rfl, ?_⟩
      rw [Array.length_toList, h.stems.thunks] at hs hge
      rw [hP', List.getElem?_append_right (Nat.not_lt.mp hge), hs]
  refine ⟨adds.stems, hasSlots, ?_, ?_, ?_, ?_⟩
  · intro i suspension hi
    obtain hi | ⟨s, heq, hs⟩ := hcell hi
    · exact Origins.thunk_mono adds.le (h.pending hi)
    · cases heq
      exact hs
  · intro i value hi
    obtain hi | ⟨s, heq, -⟩ := hcell hi
    · exact (h.ready hi).keeps adds.le hb adds.stems fun _ _ => .mono adds.le
    · cases heq
  · intro key value hkey
    rw [adds.fields] at hkey
    exact (h.field hkey).keeps adds.le hb adds.stems fun _ _ => .mono adds.le
  · intro p hp hasAsserts hpassed
    by_cases hlt : p.id.index < b.checks.size
    · rw [adds.check_old hlt] at hpassed
      obtain ⟨new, hobjects, -⟩ := adds.objects
      rw [hobjects, List.getElem?_append_left (h.stems.objects ▸ hlt)] at hp
      exact (h.passed hp hasAsserts hpassed).keeps adds.le hb adds.stems fun _ _ => id
    · rw [adds.check_new (Nat.not_lt.mp hlt) (Array.getElem?_eq_some_iff.mp hpassed).choose]
        at hpassed
      cases hpassed

/-- The stack does not matter. -/
theorem setStack (h : b.Confirmed session O') (stack : CallStack) :
  State.Confirmed session O' { b with stack }
  := by
  have hb := Keeps.setStack b stack
  have stems : State.Stems session O' { b with stack } := { h.stems with }
  refine ⟨stems, h.hasSlots, h.pending, ?_, ?_, ?_⟩
  · intro i value hi
    exact (h.ready hi).keeps le_rfl hb stems fun _ _ => id
  · intro key value hkey
    exact (h.field hkey).keeps le_rfl hb stems fun _ _ => id
  · intro p hp hasAsserts hpassed
    exact (h.passed hp hasAsserts hpassed).keeps le_rfl hb stems fun _ _ => id

/-- Keeping the value of a thunk that is confirmed. -/
theorem keepThunk (h : b.Confirmed session O') {thunk : ThunkId} {value : Value}
    (hrecord : Recorded session O' b Matching (BeginsThunk O' thunk.index) value) :
  (b.keepThunk thunk value).Confirmed session O'
  := by
  have hb : b.Keeps (b.keepThunk thunk value) := ⟨le_rfl, id, id⟩
  have stems : (b.keepThunk thunk value).Stems session O' :=
    { h.stems with thunks := (Array.size_setIfInBounds ..).trans h.stems.thunks }
  have hcell : ∀ {i : Nat} {cell : Cell}, (b.keepThunk thunk value).thunks[i]? = some cell →
      b.thunks[i]? = some cell ∨ (thunk.index = i ∧ cell = .ready value) := by
    intro i cell hi
    simp only [State.keepThunk, Array.getElem?_setIfInBounds] at hi
    split at hi
    case isFalse => exact .inl hi
    case isTrue heq =>
      split at hi
      · cases hi
        exact .inr ⟨heq, rfl⟩
      · cases hi
  refine ⟨stems, h.hasSlots, ?_, ?_, ?_, ?_⟩
  · intro i suspension hi
    obtain hi | ⟨-, heq⟩ := hcell hi
    · exact h.pending hi
    · cases heq
  · intro i v hi
    obtain hi | ⟨rfl, heq⟩ := hcell hi
    · exact (h.ready hi).keeps le_rfl hb stems fun _ _ => id
    · cases heq
      exact hrecord.keeps le_rfl hb stems fun _ _ => id
  · intro key v hkey
    exact (h.field hkey).keeps le_rfl hb stems fun _ _ => id
  · intro p hp hasAsserts hpassed
    exact (h.passed hp hasAsserts hpassed).keeps le_rfl hb stems fun _ _ => id

/-- Keeping the value of a field that is confirmed. -/
theorem keepField (h : b.Confirmed session O') {key : FieldKey} {value : Value}
    (hrecord : Recorded session O' b Matching (BeginsField O' key) value) :
  (b.keepField key value).Confirmed session O'
  := by
  have hb : b.Keeps (b.keepField key value) := ⟨le_rfl, id, id⟩
  have stems : (b.keepField key value).Stems session O' := { h.stems with }
  refine ⟨stems, h.hasSlots, h.pending, ?_, ?_, ?_⟩
  · intro i v hi
    exact (h.ready hi).keeps le_rfl hb stems fun _ _ => id
  · intro other v hother
    simp only [State.keepField, Std.HashMap.getElem?_insert] at hother
    split at hother
    case isFalse => exact (h.field hother).keeps le_rfl hb stems fun _ _ => id
    case isTrue heq =>
      cases beq_iff_eq.mp heq
      cases hother
      exact hrecord.keeps le_rfl hb stems fun _ _ => id
  · intro p hp hasAsserts hpassed
    exact (h.passed hp hasAsserts hpassed).keeps le_rfl hb stems fun _ _ => id

/-- The check of an object may begin and fail, and it may pass if that is confirmed. -/
theorem setCheck (h : b.Confirmed session O') {p : Object} {check : AssertionState}
    (hp : O'.objects[p.id.index]? = some p) (hcheck : checkOf p b = .passed → check = .passed)
    (hrecord : check = .passed → Recorded session O' b Same (BeginsCheck p) ()) :
  (Jsonnet.setCheck p check b).Confirmed session O'
  := by
  have hb : b.Keeps (Jsonnet.setCheck p check b) := .setCheck hcheck
  have stems := h.stems.setCheck p check
  refine ⟨stems, h.hasSlots, h.pending, ?_, ?_, ?_⟩
  · intro i v hi
    exact (h.ready hi).keeps le_rfl hb stems fun _ _ => id
  · intro key v hkey
    exact (h.field hkey).keeps le_rfl hb stems fun _ _ => id
  · intro q hq hasAsserts hpassed
    rw [getElem?_setCheck] at hpassed
    split at hpassed
    case isFalse =>
      exact (h.passed hq hasAsserts hpassed).keeps le_rfl hb stems fun _ _ => id
    case isTrue heq =>
      rw [← heq] at hq
      cases hp.symm.trans hq
      obtain ⟨_, -, rfl⟩ := Option.map_eq_some_iff.mp hpassed
      exact (hrecord rfl).keeps le_rfl hb stems fun _ _ => id

end State.Confirmed

end

end Jsonnet
