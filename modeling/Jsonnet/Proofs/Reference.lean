import Jsonnet.Proofs.Operations
import Jsonnet.Proofs.Simulation

/-!
# The reference evaluator

The reference evaluator keeps no results, so the same computation does the same again.
Two of its runs that begin with data that are alike, and refer to objects that count as
valid on both sides, stay in lockstep: each makes its own objects, and what it finds out
about them the other finds out about its own.
-/

namespace Jsonnet

/-! ### Stages -/

/-- A stage of two runs: what is paired, and the origins of both states. -/
structure Stage where
  world : World .loose
  left : Origins
  right : Origins

namespace Stage

/-- A later stage pairs more and has more origins. -/
instance : LE Stage where
  le s t := s.world ≤ t.world ∧ s.left ≤ t.left ∧ s.right ≤ t.right

instance : Preorder Stage where
  le_refl s := ⟨le_rfl, le_rfl, le_rfl⟩
  le_trans _ _ _ h h' := ⟨h.1.trans h'.1, h.2.1.trans h'.2.1, h.2.2.trans h'.2.2⟩

end Stage

/-! ### States in which nothing is kept -/

namespace State

variable {session : Session} {O P : Origins} {a b : State}

/-- A state in which no thunk is ready. -/
def Pending (O : Origins) (a : State) : Prop := a.thunks.toList = O.thunks.map Cell.pending

theorem Pending.cell (h : a.Pending O) {i : Nat} {suspension : Suspension}
    (hi : O.thunks[i]? = some suspension) :
  a.thunks[i]? = some (.pending suspension)
  := by
  rw [← Array.getElem?_toList, h, List.getElem?_map, hi]
  rfl

/-- The suspensions of a state in which no thunk is ready are determined by the state. -/
theorem Pending.thunks_eq (h : a.Pending O) (h' : a.Pending P) :
  O.thunks = P.thunks
  := by
  apply List.map_injective_iff.mpr _ (h.symm.trans h')
  intro s s' heq
  cases heq
  rfl

namespace Adds

theorem pending (h : a.Adds session O P b) (ha : a.Pending O) :
  b.Pending P
  := by
  obtain ⟨new, hP, hb⟩ := h.thunks
  rw [Pending, hb, Array.toList_appendList, hP, ha, List.map_append]

theorem checks_size (h : a.Adds session O P b) :
  a.checks.size ≤ b.checks.size
  := by
  obtain ⟨new, -, hb⟩ := h.objects
  rw [hb, ← Array.length_toList, ← Array.length_toList, Array.toList_appendList,
    List.length_append]
  exact Nat.le_add_right _ _

/-- The checks of objects that were there before do not change. -/
theorem check_old (h : a.Adds session O P b) {i : Nat} (hi : i < a.checks.size) :
  b.checks[i]? = a.checks[i]?
  := by
  obtain ⟨new, -, hb⟩ := h.objects
  rw [hb, ← Array.getElem?_toList, Array.toList_appendList,
    List.getElem?_append_left (by simpa using hi), Array.getElem?_toList]

/-- New objects are not checked. -/
theorem check_new (h : a.Adds session O P b) {i : Nat} (hi : a.checks.size ≤ i)
    (hi' : i < b.checks.size) :
  b.checks[i]? = some .notChecked
  := by
  obtain ⟨new, -, hb⟩ := h.objects
  rw [hb, ← Array.length_toList, Array.toList_appendList, List.length_append,
    Array.length_toList, List.length_replicate] at hi'
  rw [hb, ← Array.getElem?_toList, Array.toList_appendList,
    List.getElem?_append_right (by simpa using hi), List.getElem?_replicate, if_pos]
  rw [Array.length_toList]
  omega

end Adds

/-! ### Setting checks -/

theorem size_setCheck (object : Object) (check : AssertionState) :
  (setCheck object check a).checks.size = a.checks.size
  := Array.size_setIfInBounds ..

theorem Stems.setCheck (h : a.Stems session O) (object : Object) (check : AssertionState) :
  (setCheck object check a).Stems session O
  := { h with objects := (size_setCheck object check).trans h.objects }

theorem Keeps.setCheck {object : Object} {check : AssertionState}
    (h : checkOf object a = .passed → check = .passed) :
  a.Keeps (setCheck object check a)
  where
  names := le_rfl
  slot := id
  passed := by
    intro i hi
    rw [getElem?_setCheck]
    split
    case isFalse => exact hi
    case isTrue heq =>
      rw [hi, Option.map_some, h]
      rw [checkOf, heq, hi]
      rfl

end State

/-! ### Tasks of the reference evaluator -/

section

variable {session : Session} {fuel : Nat} {a : State}

/-- Without sharing, a thunk is computed at every use. -/
theorem Task.perform_force (hsharing : session.sharing = false) {thunk : ThunkId}
    {suspension : Suspension} (h : a.thunks[thunk.index]? = some (.pending suspension)) :
  (Task.force thunk).perform session (fuel + 1) a
    = (suspension.run session).resolve session (Task.perform session fuel) a
  := by
  have hknown : (Task.force thunk).known? session a = none := by rw [known?, h]
  have haction : (Task.force thunk).action a = suspension.run := by
    simp only [action, computeThunk, h]
  have hsettle : ∀ x : Outcome Value, (Task.force thunk).settle session x.2 x.1 = x.2 := by
    rintro ⟨outcome, b⟩
    cases outcome with
    | ok value => simp only [settle, hsharing, Bool.false_eq_true, if_false]
    | error failure => rfl
  rw [perform_unknown hknown, haction]
  simp only [hsettle]
  exact Option.map_id'

/-- Without sharing, a field is computed at every use. -/
theorem Task.perform_field (hsharing : session.sharing = false) {object : Object} {leaf : Leaf}
    {depth : Nat} {name : Name} {site : Location} :
  (Task.field object leaf depth name site).perform session (fuel + 1) a
    = (computeField object leaf depth name site session).resolve session
        (Task.perform session fuel) a
  := by
  have hknown : (Task.field object leaf depth name site).known? session a = none := by
    simp only [known?, hsharing, Bool.false_eq_true, if_false]
  have hsettle : ∀ x : Outcome Value,
      (Task.field object leaf depth name site).settle session x.2 x.1 = x.2 := by
    rintro ⟨outcome, b⟩
    cases outcome with
    | ok value => simp only [settle, hsharing, Bool.false_eq_true, if_false]
    | error failure => rfl
  rw [perform_unknown hknown]
  simp only [hsettle]
  exact Option.map_id'

/-- The events of computing a thunk. -/
theorem Task.events_force {thunk : ThunkId} {suspension : Suspension} {x : Outcome Value}
    (h : a.thunks[thunk.index]? = some (.pending suspension))
    (hx : (suspension.run session).resolve session (Task.perform session fuel) a = some x) :
  (Task.force thunk).events session (fuel + 1) a
    = .begins (.thunk thunk) :: ((suspension.run session).events session
        (Task.perform session fuel) (Task.events session fuel) a
          ++ [.ended (.thunk thunk) x.1.isOk])
  := by
  have hknown : (Task.force thunk).known? session a = none := by rw [known?, h]
  have haction : (Task.force thunk).action a = suspension.run := by
    simp only [action, computeThunk, h]
  rw [events_unknown hknown rfl (by rw [haction]; exact hx), haction]
  rfl

/-- The events of computing a field without sharing. -/
theorem Task.events_field (hsharing : session.sharing = false) {object : Object} {leaf : Leaf}
    {depth : Nat} {name : Name} {site : Location} {x : Outcome Value}
    (hx : (computeField object leaf depth name site session).resolve session
      (Task.perform session fuel) a = some x) :
  (Task.field object leaf depth name site).events session (fuel + 1) a
    = .begins (.field (object.fieldKey name depth)) ::
        ((computeField object leaf depth name site session).events session
          (Task.perform session fuel) (Task.events session fuel) a
          ++ [.ended (.field (object.fieldKey name depth)) x.1.isOk])
  := by
  have hknown : (Task.field object leaf depth name site).known? session a = none := by
    simp only [known?, hsharing, Bool.false_eq_true, if_false]
  exact events_unknown hknown rfl hx

end

/-! ### Worlds with one more `self` -/

/-- A world in which a paired object may be `self`. -/
def World.withSelf (w : World .loose) (o p : Object) (h : w.object o p) : World .loose :=
  w.extend { Pairing.nothing .loose with self := fun o' p' => o' = o ∧ p' = p }
    (fun ⟨ho, hp⟩ => .inl (ho ▸ hp ▸ h)) fun h => h.elim

theorem World.withSelf_self (w : World .loose) {o p : Object} (h : w.object o p) :
  (w.withSelf o p h).self o p
  := .inr ⟨rfl, rfl⟩

theorem World.le_withSelf (w : World .loose) {o p : Object} (h : w.object o p) :
  w ≤ w.withSelf o p h
  := Pairing.le_join_left _ _

theorem World.object_of_withSelf {w : World .loose} {o p o' p' : Object} (h : w.object o p)
    (h' : (w.withSelf o p h).object o' p') :
  w.object o' p'
  := h'.resolve_right id

theorem World.Fits.withSelf {session : Session} {w : World .loose} {O O' : Origins} {a b : State}
    (fits : w.Fits session O a O' b) {o p : Object} (h : w.object o p) :
  (w.withSelf o p h).Fits session O a O' b
  := fits.extend rfl le_rfl le_rfl (.refl a) (.refl b) fits.stems fits.stems'
    (fun _ h => h.elim) (fun _ _ h => h.elim) (fun _ _ h => h.elim) fun _ _ h => h.elim

/-- A stage at which a paired object may be `self`. -/
def Stage.withSelf (s : Stage) (o p : Object) (h : s.world.object o p) : Stage :=
  { s with world := s.world.withSelf o p h }

theorem Stage.le_withSelf (s : Stage) {o p : Object} (h : s.world.object o p) :
  s ≤ s.withSelf o p h
  := ⟨s.world.le_withSelf h, le_rfl, le_rfl⟩

/-! ### Repetitions -/

/-- Where two runs begin, with the data that they begin with and the names that they may
give out. -/
structure Repetition where
  world : World .loose
  first : State
  second : State
  names : Interner
  /-- Whether the second run begins with all these names. -/
  fixed : Prop

namespace Repetition

/-- Objects that the runs make. -/
def New (r : Repetition) (o p : Object) : Prop :=
  r.first.checks.size ≤ o.id.index ∧ r.second.checks.size ≤ p.id.index

/-- What relates the states of two runs. The objects with which they begin are those that
count as valid in both, and the checks of the others are as far as each other. -/
structure Inv (session : Session) (r : Repetition) (s : Stage) (a b : State) : Prop where
  le : r.world ≤ s.world
  fits : s.world.Fits session s.left a s.right b
  names : (Naming.below r.names r.fixed).rel a.names b.names
  pending : a.Pending s.left
  pending' : b.Pending s.right
  size : r.first.checks.size ≤ a.checks.size
  size' : r.second.checks.size ≤ b.checks.size
  frame : ∀ i < r.first.checks.size, a.checks[i]? = r.first.checks[i]?
  frame' : ∀ i < r.second.checks.size, b.checks[i]? = r.second.checks[i]?
  object : ∀ o p, s.world.object o p → r.world.self o p ∨
    (r.New o p ∧ a.checks[o.id.index]? = b.checks[p.id.index]?)
  unique : ∀ o p o' p', s.world.object o p → s.world.object o' p' → r.New o p →
    (o.id.index = o'.id.index ↔ p.id.index = p'.id.index)
  self : ∀ o p, s.world.self o p → o.isSettled a = true ∧ p.isSettled b = true

section

variable {session : Session} {r : Repetition} {s : Stage} {a b : State}

theorem index_lt {w : World .loose} {O O' : Origins} (fits : w.Fits session O a O' b) {o p : Object}
    (h : w.object o p) :
  o.id.index < a.checks.size ∧ p.id.index < b.checks.size
  := by
  obtain ⟨ho, hp⟩ := fits.object o p h
  rw [fits.stems.objects, fits.stems'.objects]
  exact ⟨(List.getElem?_eq_some_iff.mp ho).choose, (List.getElem?_eq_some_iff.mp hp).choose⟩

namespace Inv

/-- What related operations lead to. -/
theorem adds (h : r.Inv session s a b) {w : World .loose} {P P' : Origins} {a' b' : State}
    (le : s.world ≤ w) (adds : a.Adds session s.left P a') (adds' : b.Adds session s.right P' b')
    (fits : w.Fits session P a' P' b')
    (names : (Naming.below r.names r.fixed).rel a'.names b'.names)
    (self : ∀ o p, w.self o p → s.world.self o p)
    (object : ∀ o p, w.object o p → s.world.object o p ∨
      (o.id.index = s.left.objects.length ∧ p.id.index = s.right.objects.length)) :
  r.Inv session ⟨w, P, P'⟩ a' b'
  := by
  have hold : ∀ o p, s.world.object o p →
      a'.checks[o.id.index]? = a.checks[o.id.index]? ∧
        b'.checks[p.id.index]? = b.checks[p.id.index]? := by
    intro o p hop
    obtain ⟨ho, hp⟩ := index_lt h.fits hop
    exact ⟨adds.check_old ho, adds'.check_old hp⟩
  refine ⟨h.le.trans le, fits, names, adds.pending h.pending, adds'.pending h.pending',
    h.size.trans adds.checks_size, h.size'.trans adds'.checks_size, ?_, ?_, ?_, ?_, ?_⟩
  · intro i hi
    rw [adds.check_old (hi.trans_le h.size), h.frame i hi]
  · intro i hi
    rw [adds'.check_old (hi.trans_le h.size'), h.frame' i hi]
  · intro o p hop
    obtain hop' | ⟨ho, hp⟩ := object o p hop
    · rw [(hold o p hop').1, (hold o p hop').2]
      exact h.object o p hop'
    · obtain ⟨ho', hp'⟩ := index_lt fits hop
      rw [← h.fits.stems.objects] at ho
      rw [← h.fits.stems'.objects] at hp
      refine .inr ⟨⟨ho ▸ h.size, hp ▸ h.size'⟩, ?_⟩
      rw [adds.check_new ho.ge ho', adds'.check_new hp.ge hp']
  · intro o p o' p' hop hop' hnew
    obtain hop | ⟨ho, hp⟩ := object o p hop <;> obtain hop' | ⟨ho', hp'⟩ := object o' p' hop'
    · exact h.unique o p o' p' hop hop' hnew
    · obtain ⟨hlt, hlt'⟩ := index_lt h.fits hop
      rw [h.fits.stems.objects] at hlt
      rw [h.fits.stems'.objects] at hlt'
      omega
    · obtain ⟨hlt, hlt'⟩ := index_lt h.fits hop'
      rw [h.fits.stems.objects] at hlt
      rw [h.fits.stems'.objects] at hlt'
      omega
    · omega
  · intro o p hself
    have hself := self o p hself
    obtain ⟨ho, hp⟩ := hold o p (s.world.object_of_self hself)
    rw [Object.isSettled_congr ho, Object.isSettled_congr hp]
    exact h.self o p hself

/-- Paired objects count as valid on both sides or on none. -/
theorem isSettled_eq (h : r.Inv session s a b) {o p : Object} (hop : s.world.object o p) :
  o.isSettled a = p.isSettled b
  := by
  obtain hold | ⟨-, heq⟩ := h.object o p hop
  · obtain ⟨ho, hp⟩ := h.self o p (Pairing.self_mono h.le hold)
    rw [ho, hp]
  · rw [Object.isSettled, Object.isSettled, checkOf, checkOf, heq, (s.world.alike hop).hasAsserts_eq]

/-- A paired object that counts as valid on both sides may be `self`. -/
theorem withSelf (h : r.Inv session s a b) {o p : Object} (hop : s.world.object o p)
    (ho : o.isSettled a = true) (hp : p.isSettled b = true) :
  r.Inv session (s.withSelf o p hop) a b
  := { h with
    le := h.le.trans (s.world.le_withSelf hop)
    fits := h.fits.withSelf hop
    object := fun o' p' h' => h.object o' p' (World.object_of_withSelf hop h')
    unique := fun o₁ p₁ o₂ p₂ h₁ h₂ =>
      h.unique o₁ p₁ o₂ p₂ (World.object_of_withSelf hop h₁) (World.object_of_withSelf hop h₂)
    self := by
      rintro o' p' (h' | ⟨rfl, rfl⟩)
      · exact h.self o' p' h'
      · exact ⟨ho, hp⟩ }

/-- The checks of an object that the runs make go the same way. -/
theorem setCheck (h : r.Inv session s a b) {o p : Object} (hop : s.world.object o p)
    (hnew : r.New o p) (check : AssertionState) (hcheck : check ≠ .notChecked)
    (ho : checkOf o a = .passed → check = .passed)
    (hp : checkOf p b = .passed → check = .passed) :
  r.Inv session s (setCheck o check a) (setCheck p check b)
  := by
  refine ⟨h.le, ?_, h.names, h.pending, h.pending', ?_, ?_, ?_, ?_, ?_, h.unique, ?_⟩
  · exact h.fits.keeps le_rfl le_rfl (.setCheck ho) (.setCheck hp) (h.fits.stems.setCheck o check)
      (h.fits.stems'.setCheck p check)
  · rw [State.size_setCheck]
    exact h.size
  · rw [State.size_setCheck]
    exact h.size'
  · intro i hi
    rw [State.getElem?_setCheck, if_neg, h.frame i hi]
    exact (hi.trans_le hnew.1).ne'
  · intro i hi
    rw [State.getElem?_setCheck, if_neg, h.frame' i hi]
    exact (hi.trans_le hnew.2).ne'
  · intro o' p' hop'
    apply (h.object o' p' hop').imp_right
    rintro ⟨hnew', heq⟩
    use hnew'
    rw [State.getElem?_setCheck, State.getElem?_setCheck, heq]
    by_cases hid : o.id.index = o'.id.index
    · rw [if_pos hid, if_pos ((h.unique o p o' p' hop hop' hnew).mp hid)]
    · rw [if_neg hid, if_neg fun hid' => hid ((h.unique o p o' p' hop hop' hnew).mpr hid')]
  · intro o' p' hself
    obtain ⟨ho', hp'⟩ := h.self o' p' hself
    exact ⟨Object.isSettled_setCheck_of_isSettled ho' o hcheck,
      Object.isSettled_setCheck_of_isSettled hp' p hcheck⟩

end Inv

end

/-! ### Runs -/

/-- The comparison of the two runs. -/
def comparison (session : Session) (r : Repetition) : Comparison .loose session session where
  Stage := Stage
  world := Stage.world
  Inv := r.Inv session
  Sound _ _ _ := True
  Open _ _ _ := True
  Within a := a.names ≤ r.names ∧ a.HasSlots
  Within' b := (r.fixed ∨ b.names ≤ r.names) ∧ b.HasSlots
  Allowed _ := True
  certain := True
  roomy := False

section

variable {session : Session} (lawful : session.frontEnd.Lawful)
  (hsharing : session.sharing = false) (r : Repetition)

include lawful in
theorem operation {s : Stage} {a b : State} {op op' : Operation}
    {T : World .loose → op.Result → op'.Result → Prop} (hop : op.Related session s.world op' T)
    (inv : r.Inv session s a b)
    (hwithin : (op.apply session a).2.names ≤ r.names ∧ (op.apply session a).2.HasSlots)
    (hwithin' : (r.fixed ∨ (op'.apply session b).2.names ≤ r.names) ∧
      (op'.apply session b).2.HasSlots) :
  (r.comparison session).Ends T s (op.apply session a) (op'.apply session b)
  := by
  have hresults := hop.results (Session.Agrees.refl session) lawful
    (Naming.below_lawful r.names r.fixed) inv.fits inv.names hwithin.2 hwithin'.2 hwithin.1
    hwithin'.1
  generalize op.apply session a = x at hresults
  generalize op'.apply session b = y at hresults
  cases hresults with
  | ok w le P P' adds adds' fits names self object result =>
    exact .ok (C := r.comparison session) (⟨w, P, P'⟩ : Stage) ⟨le, adds.le, adds'.le⟩
      (inv.adds le adds adds' fits names self object) result
  | error kind P' adds' names => exact .error (.ofKind kind) ⟨s, le_rfl, trivial⟩

section

variable {fuel : Nat} (hcarries : (r.comparison session).Carries fuel)

include hsharing hcarries

theorem force {t t' : ThunkId} {S : World .loose → Value → Value → Prop} :
  (r.comparison session).CarriesTask (fuel + 1) (.force t) (.force t') S
  := by
  intro s a b x hrelated hmeets hperform hends _ hcertain
  cases hrelated with
  | force thunk =>
    obtain ⟨su, su', hs, hs', alike⟩ := hmeets.inv.fits.thunk t t' thunk
    have hcell := hmeets.inv.pending.cell hs
    have hcell' := hmeets.inv.pending'.cell hs'
    rw [Task.perform_force hsharing hcell] at hperform
    rw [Task.perform_force hsharing hcell']
    have hrun : Action.Related session session Matching s.world su.run su'.run := run_related alike
    apply hcarries hrun ⟨hmeets.inv, trivial, hmeets.room, hmeets.stack⟩ hperform hends (fun _ _ => trivial)
    intro h
    obtain ⟨m, y, hy, hy'⟩ := hcertain h
    cases m with
    | zero => cases hy
    | succ m =>
      rw [Task.perform_force hsharing hcell'] at hy
      exact ⟨m, y, hy, hy'⟩

theorem field {o p : Object} {l l' : Leaf} {depth depth' : Nat} {name name' : Name}
    {site site' : Location} {S : World .loose → Value → Value → Prop} :
  (r.comparison session).CarriesTask (fuel + 1) (.field o l depth name site)
    (.field p l' depth' name' site') S
  := by
  intro s a b x hrelated hmeets hperform hends _ hcertain
  cases hrelated with
  | field same_site self known hit hit' =>
    rw [Task.perform_field hsharing] at hperform ⊢
    have hrun : Action.Related session session Matching s.world
        (computeField o l depth name site) (computeField p l' depth name site') :=
      field_related self known hit hit' same_site
    apply hcarries hrun ⟨hmeets.inv, trivial, hmeets.room, hmeets.stack⟩ hperform hends (fun _ _ => trivial)
    intro h
    obtain ⟨m, y, hy, hy'⟩ := hcertain h
    cases m with
    | zero => cases hy
    | succ m =>
      rw [Task.perform_field hsharing] at hy
      exact ⟨m, y, hy, hy'⟩

end

theorem check {fuel : Nat} (hcarries : (r.comparison session).Carries fuel) {o p : Object}
    {S : World .loose → Unit → Unit → Prop} :
  (r.comparison session).CarriesTask (fuel + 1) (.check o) (.check p) S
  := by
  intro s a b x hrelated hmeets hperform hends _ hcertain
  cases hrelated with
  | check hop =>
    have inv := hmeets.inv
    cases hsettled : o.isSettled a with
    | true =>
      have hsettled' := (inv.isSettled_eq hop).symm.trans hsettled
      rw [Task.perform_check_settled hsettled] at hperform
      cases hperform
      refine ⟨_, Task.perform_check_settled hsettled', ?_⟩
      exact .ok (C := r.comparison session) (s.withSelf o p hop) (s.le_withSelf hop)
        (inv.withSelf hop hsettled hsettled') (s.world.withSelf_self hop)
    | false =>
      have hsettled' := (inv.isSettled_eq hop).symm.trans hsettled
      obtain ⟨-, hcheck⟩ := Object.checkOf_of_unsettled hsettled
      obtain ⟨-, hcheck'⟩ := Object.checkOf_of_unsettled hsettled'
      have hnew : r.New o p := by
        obtain hold | ⟨hnew, -⟩ := inv.object o p hop
        · rw [(inv.self o p (Pairing.self_mono inv.le hold)).1] at hsettled
          cases hsettled
        · exact hnew
      rw [Task.perform_check hsettled] at hperform
      rw [Task.perform_check hsettled']
      obtain ⟨x₀, hx₀, rfl⟩ := Option.map_eq_some_iff.mp hperform
      -- The check goes on in both runs, and meanwhile the object may be `self`.
      have hbegun := inv.setCheck hop hnew .inProgress (by simp) (by simp [hcheck])
        (by simp [hcheck'])
      obtain ⟨hlt, hlt'⟩ := index_lt inv.fits hop
      have hopen := hbegun.withSelf hop (Object.isSettled_setCheck hlt (by simp))
        (Object.isSettled_setCheck hlt' (by simp))
      have hrun : Action.Related session session Same (s.withSelf o p hop).world
          (checkAssertions o o.assertions) (checkAssertions p p.assertions) :=
        objectAssertions_related (s.world.withSelf_self hop)
      obtain ⟨y₀, hy₀, hends₀⟩ := hcarries (w := s.withSelf o p hop) hrun
        ⟨hopen, trivial, hmeets.room, hmeets.stack⟩ hx₀
        ⟨hends.state, hends.noOverflow⟩ (fun _ _ => trivial) (by
          intro h
          obtain ⟨m, y, hy, hy'⟩ := hcertain h
          cases m with
          | zero => cases hy
          | succ m =>
            rw [Task.perform_check hsettled'] at hy
            obtain ⟨y₀, hy₀, rfl⟩ := Option.map_eq_some_iff.mp hy
            exact ⟨m, y₀, hy₀, hy'.state, hy'.noOverflow⟩)
      refine ⟨_, by rw [hy₀]; rfl, ?_⟩
      refine (hends₀.settleCheck ?_ fun _ _ _ _ => trivial).weaken (s.le_withSelf hop)
      intro s' hle _ inv'
      have hself := Pairing.self_mono hle.1 (s.world.withSelf_self hop)
      refine ⟨s', hle, ?_, hself⟩
      exact inv'.setCheck (s'.world.object_of_self hself) hnew .passed (by simp) (by simp)
        (by simp)

include lawful hsharing in
/-- What the comparison has to fulfil. -/
theorem lawful_comparison :
  (r.comparison session).Lawful
  where
  agrees := .refl session
  world_mono h := h.1
  sound _ := trivial
  names hexact := hexact.elim
  inv_stack _ _ h := { h with
    fits := { h.fits with
      stems := { h.fits.stems with }
      stems' := { h.fits.stems' with } } }
  sound_stack _ _ h := h
  open_stack _ h := h
  open_mono _ _ _ _ _ := trivial
  within := {
    stack := fun _ h => h
    grows := fun h h' => ⟨(h.names lawful.grows).trans h'.1, h.hasSlots h'.2⟩ }
  within' := {
    stack := fun _ h => h
    grows := fun h h' => ⟨h'.1.imp_right fun h' => (h.names lawful.grows).trans h', h.hasSlots h'.2⟩ }
  operation hop inv _ hwithin hwithin' := r.operation lawful hop inv hwithin (hwithin' trivial)
  task := by
    intro fuel hcarries task task' S hkept w a b x hrelated
    have hcarries : (r.comparison session).Carries fuel := hcarries fuel le_rfl
    cases hrelated with
    | force thunk => exact r.force hsharing hcarries (.force thunk)
    | field same_site self known hit hit' =>
      exact r.field hsharing hcarries (.field same_site self known hit hit')
    | check object => exact r.check hcarries (.check object)
    | _ => cases hkept

end

end Repetition

end Jsonnet
