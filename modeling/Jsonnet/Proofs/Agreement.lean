import Jsonnet.Proofs.Records

/-!
# Keeping results changes no result

A run of an evaluator that keeps results is compared with a run of the reference
evaluator. Whatever is kept is confirmed by records, so where the one takes a result that
is kept, the other comes to it by computing it again. An object that is under check is
met again by the one only if the other would have to check an object of its own in the
same way, without end.
-/

namespace Jsonnet

/-! ### States of the two runs -/

/-- By what a run that keeps results may differ from one of the reference evaluator. -/
structure Leeway where
  /-- The names that the reference evaluator may give out. -/
  names : Interner
  /-- Whether the other run begins with all these names. Otherwise both know the same names. -/
  fixed : Prop
  /-- How many more slots the other run may have. -/
  slots : Nat
  /-- Whether there is no less room for frames in the other run. -/
  roomy : Prop

/-- What relates a state of the reference evaluator to one that keeps results. -/
structure State.Tracks (session : Session) (k : Leeway) (s : Stage) (a b : State) : Prop where
  mirrors : a.Mirrors session s.world s.left s.right b
  confirmed : b.Confirmed session s.right
  names : (Naming.behind k.names k.fixed).rel a.names b.names
  passed : ∀ o p, s.world.object o p → a.checks[o.id.index]? = some .passed →
    b.checks[p.id.index]? = some .passed
  unique : ∀ o p p', s.world.object o p → s.world.object o p' → p = p'
  slots : b.slots.size ≤ a.slots.size + k.slots

section

variable {session : Session} (lawful : session.frontEnd.Lawful)
  (hsharing : session.sharing = false)

/-- What a computation of the reference evaluator has come to where the result was kept. -/
structure State.Absorbs (session : Session) (k : Leeway) (s s' : Stage) (a a' b : State) : Prop where
  le : s ≤ s'
  tracks : a'.Tracks session k s' b
  frame : ∀ i < a.checks.size, a'.checks[i]? = a.checks[i]?
  /-- No object is under check that was not before. -/
  inProgress : ∀ o p, s'.world.object o p → a'.checks[o.id.index]? = some .inProgress →
    s.world.object o p ∧ a.checks[o.id.index]? = some .inProgress

include lawful in
/-- What the repetition of a recorded computation comes to. -/
theorem State.Tracks.absorb {k : Leeway} {s : Stage} {a b : State}
    (tracks : a.Tracks session k s b) {w₀ w₁ : World .loose} {a₀ a₁ : State}
    (record : Record session w₀ w₁ a₀ a₁ s.right b) {s₁ : Stage} {a' : State}
    (hgrows : a.Grows session a') (hasSlots : a'.HasSlots) (hleft : s.left ≤ s₁.right)
    (inv : (Repetition.ofMirrors w₀ s.world a₀ a b.names (¬ k.fixed)).Inv session s₁ a₁ a') :
  a.Absorbs session k s ⟨s.world.through s₁.world w₁, s₁.right, s.right⟩ a' b
  := by
  obtain ⟨O₁, after⟩ := record.after
  have fits := tracks.mirrors.fits
  have hframe : ∀ i < a.checks.size, a'.checks[i]? = a.checks[i]? := inv.frame'
  have hold : ∀ o p, s.world.object o p → a'.checks[o.id.index]? = a.checks[o.id.index]? :=
    fun o p hop => hframe _ (Repetition.index_lt fits hop).1
  -- An object that was there before is paired already, as nothing is paired twice.
  have hcases : ∀ o p, (s.world.through s₁.world w₁).object o p → s.world.object o p ∨
      ∃ o₁, s₁.world.object o₁ o ∧ w₁.object o₁ p ∧ a.checks.size ≤ o.id.index ∧
        (∀ o₂, s₁.world.object o₂ o → o₁ = o₂) ∧
        a₁.checks[o₁.id.index]? = a'.checks[o.id.index]? := by
    rintro o p (hop | ⟨o₁, hu, hv⟩)
    · exact .inl hop
    · obtain ⟨q, hq, hq'⟩ | ⟨hnew, heq⟩ := inv.object o₁ o hu
      · cases record.unique o₁ p q hv
          (Pairing.object_mono record.le (w₀.object_of_self hq))
        exact .inl (s.world.object_of_self hq')
      · refine .inr ⟨o₁, hu, hv, hnew.2, ?_, heq⟩
        intro o₂ hu₂
        have hid := (inv.unique o₁ o o₂ o hu hu₂ hnew).mpr rfl
        have ho₁ := (inv.fits.object o₁ o hu).1
        rw [hid, (inv.fits.object o₂ o hu₂).1] at ho₁
        exact (Option.some.inj ho₁).symm
  refine ⟨⟨s.world.le_through _ _, hleft, le_rfl⟩, ⟨⟨?_, inv.pending', ?_⟩, tracks.confirmed, ?_, ?_,
    ?_, tracks.slots.trans (Nat.add_le_add_right hgrows.slotCount _)⟩, hframe, ?_⟩
  · apply fits.extend rfl hleft le_rfl (hgrows.keeps lawful hasSlots) (.refl b) inv.fits.stems'
      fits.stems'
    · rintro n ⟨hu, hv⟩
      exact ⟨(inv.fits.name n hu).2, (after.fits.name n hv).2⟩
    · rintro t t' ⟨t₁, hu, hv⟩
      obtain ⟨p₁, p, hp₁, hp, alike⟩ := inv.fits.thunk t₁ t hu
      obtain ⟨q₁, q, hq₁, hq, alike'⟩ := after.fits.thunk t₁ t' hv
      rw [inv.pending.thunks_eq after.pending] at hp₁
      cases hp₁.symm.trans hq₁
      exact ⟨p, q, hp, hq, (alike.symm.trans alike').mono (Pairing.le_join_right _ _)⟩
    · rintro i j ⟨k, hu, hv⟩
      obtain ⟨d₁, d, hd₁, hd, alike⟩ := inv.fits.slot k i hu
      obtain ⟨e₁, e, he₁, he, alike'⟩ := after.fits.slot k j hv
      cases hd₁.symm.trans he₁
      exact ⟨d, e, hd, he, (alike.symm.trans alike').mono (Pairing.le_join_right _ _)⟩
    · rintro o p ⟨o₁, hu, hv⟩
      exact ⟨(inv.fits.object o₁ o hu).2, (after.fits.object o₁ p hv).2⟩
  · rintro o p (hself | ⟨o₁, hu, hv⟩)
    · rw [Object.isSettled_congr (hold o p (s.world.object_of_self hself))]
      exact tracks.mirrors.self o p hself
    · exact (inv.self o₁ o hu).2
  · exact ⟨inv.names.2.1, tracks.names.2.1, inv.names.2.2⟩
  · intro o p hop hpassed
    obtain hop | ⟨o₁, hu, hv, -, -, heq⟩ := hcases o p hop
    · rw [hold o p hop] at hpassed
      exact tracks.passed o p hop hpassed
    · exact record.passed o₁ p hv (heq.trans hpassed)
  · intro o p p' hop hop'
    obtain hop | ⟨o₁, hu, hv, hge, hone, -⟩ := hcases o p hop <;>
      obtain hop' | ⟨o₂, hu₂, hv₂, hge', -, -⟩ := hcases o p' hop'
    · exact tracks.unique o p p' hop hop'
    · exact absurd (Repetition.index_lt fits hop).1 (Nat.not_lt.mpr hge')
    · exact absurd (Repetition.index_lt fits hop').1 (Nat.not_lt.mpr hge)
    · cases hone o₂ hu₂
      exact record.unique o₁ p p' hv hv₂
  · intro o p hop hcheck
    obtain hop | ⟨o₁, hu, hv, hge, -, -⟩ := hcases o p hop
    · exact ⟨hop, hold o p hop ▸ hcheck⟩
    · have := (Array.getElem?_eq_some_iff.mp (hgrows.inProgress hcheck)).choose
      exact absurd this (Nat.not_lt.mpr hge)

include lawful hsharing in
/-- A computation that was recorded comes to a result again. -/
theorem State.Tracks.replay {k : Leeway} {s : Stage} {a b : State}
    (tracks : a.Tracks session k s b) {α β γ : Type} {R : World .loose → α → β → Prop}
    {T : World .loose → α → γ → Prop} {Begins : World .loose → Action α → Prop} {result : β}
    (h : Recorded session s.right b R Begins result) {x : Action γ}
    (hrelated : ∀ w₀ y, (∃ O₀ a₀, State.Mirrors session w₀ O₀ a₀ s.right b) → Begins w₀ y →
      Action.Related session session T (w₀.between s.world) y x)
    {fuel : Nat} {z : Outcome γ}
    (hresolve : (x session).resolve session (Task.perform session fuel) a = some z)
    (hends : z.EndsIn .loose fun a' => (k.fixed → a'.names ≤ b.names) ∧ a'.HasSlots) :
  ∃ u v a' P recorded again, z = (.ok again, a') ∧
    a.Absorbs session k s ⟨s.world.through u v, P, s.right⟩ a' b ∧
    T u recorded again ∧ R v recorded result
  := by
  cases h with
  | @intro w₀ w₁ a₀ a₁ y fuel₀ recorded record begins run related =>
    obtain ⟨O₀, before⟩ := record.before
    have hnames₀ : a₀.names ≤ b.names :=
      ((Progress.grows Task.grows run).names lawful.grows).trans record.names
    let r := Repetition.ofMirrors w₀ s.world a₀ a b.names (¬ k.fixed)
    have inv : r.Inv session ⟨w₀.between s.world, O₀, s.left⟩ a₀ a :=
      before.repeats tracks.mirrors ⟨hnames₀, tracks.names.1, tracks.names.2.2⟩
    have hC := r.lawful_comparison lawful hsharing
    have hnames : ¬ k.fixed ∨ z.2.names ≤ b.names := imp_iff_not_or.mp hends.state.1
    obtain ⟨z', hz', hends'⟩ := hC.carries (hC.carriesTask fuel₀)
      (w := (⟨w₀.between s.world, O₀, s.left⟩ : Stage))
      (hrelated w₀ y ⟨O₀, a₀, before⟩ begins)
      ⟨inv, trivial, fun h => h.elim, fun h => h.elim⟩ run
      ⟨⟨record.names, record.hasSlots⟩, fun _ _ h => by cases h⟩ (fun _ _ => trivial)
      (fun _ => ⟨fuel, z, hresolve, ⟨hnames, hends.state.2⟩, hends.noOverflow⟩)
    cases Progress.resolve_unique hresolve hz'
    cases hends' with
    | overflow _ overflow _ =>
      have := hends.noOverflow False.elim _ rfl
      rw [overflow] at this
      cases this
    | @ok _ again _ a' s₁ le inv' result' =>
      refine ⟨s₁.world, w₁, a', s₁.right, recorded, again, rfl, ?_, result', related⟩
      exact tracks.absorb lawful record (Progress.grows Task.grows hresolve) hends.state.2 le.2.2 inv'

end

/-! ### The comparison -/

/-- An object under check, in the run that keeps results: the reference evaluator has
begun to check one that stands for it, and needs at least so much fuel to come to an end. -/
def Object.UnderCheck (session : Session) (Within : State → Prop) (fuel : Nat) (O' : Origins)
    (b : State) (p : Object) : Prop :=
  ∃ w O o a, State.Mirrors session w O a O' b ∧ w.self o p ∧
    (∀ m < fuel, (checkAssertions o o.assertions session).resolve session
      (Task.perform session m) a = none) ∧
    ∃ m y, (checkAssertions o o.assertions session).resolve session (Task.perform session m) a
      = some y ∧ y.EndsIn .loose Within

theorem Object.UnderCheck.keeps {session : Session} {Within : State → Prop} {fuel : Nat}
    {O' P' : Origins} {b b' : State} {p : Object} (h : p.UnderCheck session Within fuel O' b)
    (hO' : O' ≤ P') (hb : b.Keeps b') (stems' : b'.Stems session P') :
  p.UnderCheck session Within fuel P' b'
  := by
  obtain ⟨w, O, o, a, mirrors, h⟩ := h
  exact ⟨w, O, o, a, mirrors.keeps hO' hb stems', h⟩

theorem Object.UnderCheck.le {session : Session} {Within : State → Prop} {fuel fuel' : Nat}
    {O' : Origins} {b : State} {p : Object} (h : p.UnderCheck session Within fuel O' b)
    (hle : fuel' ≤ fuel) :
  p.UnderCheck session Within fuel' O' b
  := by
  obtain ⟨w, O, o, a, mirrors, self, hnone, hends⟩ := h
  exact ⟨w, O, o, a, mirrors, self, fun m hm => hnone m (hm.trans_le hle), hends⟩

theorem Object.UnderCheck.setStack {session : Session} {Within : State → Prop} {fuel : Nat}
    {O' : Origins} {b : State} {p : Object} (h : p.UnderCheck session Within fuel O' b)
    (stack : CallStack) :
  p.UnderCheck session Within fuel O' { b with stack }
  := by
  obtain ⟨w, O, o, a, mirrors, h⟩ := h
  exact ⟨w, O, o, a, mirrors.keeps le_rfl (.setStack b stack) { mirrors.fits.stems' with }, h⟩

namespace Agreement

/-- The checks that go on in the run that keeps results. -/
structure Opens (session : Session) (Within : State → Prop) (fuel : Nat) (s : Stage) (b : State) :
    Prop where
  size : b.checks.size ≤ s.right.objects.length
  underCheck : ∀ p : Object, s.right.objects[p.id.index]? = some p → p.hasAsserts = true →
    b.checks[p.id.index]? = some .inProgress → p.UnderCheck session Within fuel s.right b

/-- What relates the states of the two runs. -/
structure Inv (session : Session) (k : Leeway) (s : Stage) (a b : State) : Prop extends
    a.Tracks session k s b where
  settled : ∀ o p, s.world.object o p → o.isSettled a = true → p.isSettled b = true

/-- The states that the run of the reference evaluator may end in. -/
def Within (k : Leeway) (a : State) : Prop :=
  a.names ≤ k.names ∧ a.slots.size + k.slots ≤ maxSlot + 1

theorem Within.hasSlots {k : Leeway} {a : State} (h : Within k a) :
  a.HasSlots
  := (Nat.le_add_right _ _).trans h.2

/-- The comparison of the reference evaluator with one that keeps results. No literal at
a depth that is not counted exactly has a field that is read. -/
def comparison (reference memo : Session) (k : Leeway) : Comparison .loose reference memo where
  Stage := Stage
  world := Stage.world
  Inv := Inv reference k
  Sound s a b :=
    b.Confirmed reference s.right ∧ (Naming.behind k.names k.fixed).rel a.names b.names
  Open := Opens reference (Within k)
  Within := Within k
  Within' _ := True
  Allowed e := ∀ key, e = .begins (.field key) → key.depth < maxLeaves
  certain := False
  roomy := k.roomy

section

variable {reference memo : Session} (agrees : reference.Agrees memo)
  (lawful : reference.frontEnd.Lawful) (hsharing : reference.sharing = false)
  (hsharing' : memo.sharing = true) {k : Leeway} {s : Stage}
  {a b : State}

/-- Where the run of the reference evaluator may end, a computation that was recorded can be
repeated. -/
theorem Inv.replayable (h : Inv reference k s a b) {a' : State} (within : Within k a') :
  (k.fixed → a'.names ≤ b.names) ∧ a'.HasSlots
  := ⟨fun hfixed => (h.names.2.1 hfixed).symm ▸ within.1, within.hasSlots⟩

/-- What related operations lead to. -/
theorem Inv.adds (h : Inv reference k s a b) {w : World .loose} {P P' : Origins} {a' b' : State}
    (adds : a.Adds reference s.left P a') (adds' : b.Adds reference s.right P' b')
    (fits : w.Fits reference P a' P' b')
    (names : (Naming.behind k.names k.fixed).rel a'.names b'.names)
    (self : ∀ o p, w.self o p → s.world.self o p)
    (object : ∀ o p, w.object o p → s.world.object o p ∨
      (o.id.index = s.left.objects.length ∧ p.id.index = s.right.objects.length))
    (hslots : b'.slots.size ≤ a'.slots.size + k.slots) (hb : b.Keeps b') (hasSlots : b'.HasSlots) :
  Inv reference k ⟨w, P, P'⟩ a' b'
  := by
  have hfits := h.mirrors.fits
  have hold : ∀ o p, s.world.object o p → a'.checks[o.id.index]? = a.checks[o.id.index]? ∧
      b'.checks[p.id.index]? = b.checks[p.id.index]? := by
    intro o p hop
    obtain ⟨ho, hp⟩ := Repetition.index_lt hfits hop
    exact ⟨adds.check_old ho, adds'.check_old hp⟩
  have hnew : ∀ o p, w.object o p → o.id.index = s.left.objects.length →
      a'.checks[o.id.index]? = some .notChecked := by
    intro o p hop ho
    rw [← hfits.stems.objects] at ho
    exact adds.check_new ho.ge (Repetition.index_lt fits hop).1
  refine ⟨⟨⟨fits, adds.pending h.mirrors.pending, ?_⟩, h.confirmed.adds adds' hb hasSlots, names,
    ?_, ?_, hslots⟩, ?_⟩
  · intro o p hself
    have hself := self o p hself
    rw [Object.isSettled_congr (hold o p (s.world.object_of_self hself)).1]
    exact h.mirrors.self o p hself
  · intro o p hop hpassed
    obtain hop' | ⟨ho, -⟩ := object o p hop
    · rw [(hold o p hop').1] at hpassed
      rw [(hold o p hop').2]
      exact h.passed o p hop' hpassed
    · cases (hnew o p hop ho).symm.trans hpassed
  · intro o p p' hop hop'
    have hlt := fun q (hq : s.world.object o q) => hfits.stems.objects ▸
      (Repetition.index_lt hfits hq).1
    obtain hold | ⟨ho, hp⟩ := object o p hop <;> obtain hold' | ⟨ho', hp'⟩ := object o p' hop'
    · exact h.unique o p p' hold hold'
    · exact absurd ho' (hlt p hold).ne
    · exact absurd ho (hlt p' hold').ne
    · have hobject := (fits.object o p hop).2
      rw [hp, ← hp', (fits.object o p' hop').2] at hobject
      exact (Option.some.inj hobject).symm
  · intro o p hop hsettled
    obtain hop' | ⟨ho, -⟩ := object o p hop
    · rw [Object.isSettled_congr (hold o p hop').1] at hsettled
      rw [Object.isSettled_congr (hold o p hop').2]
      exact h.settled o p hop' hsettled
    · rw [Object.isSettled_iff, hnew o p hop ho, (w.alike hop).hasAsserts_eq] at hsettled
      rw [Object.isSettled_iff]
      exact .inl (by simpa using hsettled)

include agrees lawful in
theorem operation {op op' : Operation} {T : World .loose → op.Result → op'.Result → Prop}
    (hop : op.Related reference s.world op' T) (inv : Inv reference k s a b)
    (hwithin : Within k (op.apply reference a).2) :
  (comparison reference memo k).Ends T s (op.apply reference a) (op'.apply memo b)
  := by
  have hsize := op.size_slots reference a
  have hsize' := op'.size_slots memo b
  have hslots : (op'.apply memo b).2.slots.size ≤ (op.apply reference a).2.slots.size + k.slots := by
    have := inv.slots
    have := hop.reserved_eq
    omega
  have hasSlots' : (op'.apply memo b).2.HasSlots := hslots.trans hwithin.2
  have hasSlots : (op.apply reference a).2.HasSlots := (Nat.le_add_right _ _).trans hwithin.2
  have hkeeps : b.Keeps (op'.apply memo b).2 :=
    (op'.grows memo b).keeps (agrees.frontEnd ▸ lawful) hasSlots'
  have hresults := hop.results agrees lawful (Naming.behind_lawful _ _) inv.mirrors.fits inv.names
    hasSlots hasSlots' hwithin.1 trivial
  generalize op.apply reference a = x at hresults hslots
  generalize op'.apply memo b = y at hresults hkeeps hslots hasSlots'
  cases hresults with
  | ok w le P P' adds adds' fits names self object result =>
    exact .ok (C := comparison reference memo k) (⟨w, P, P'⟩ : Stage)
      ⟨le, adds.le, adds'.le⟩
      (inv.adds adds adds' fits names self object hslots hkeeps hasSlots') result
  | error kind P' adds' names =>
    exact .error (C := comparison reference memo k) (.ofKind kind)
      ⟨(⟨s.world, s.left, P'⟩ : Stage), ⟨le_rfl, le_rfl, adds'.le⟩,
        inv.confirmed.adds adds' hkeeps hasSlots', names⟩

/-- Where a result was kept, what relates the states goes on to do so. -/
theorem Inv.absorbs (h : Inv reference k s a b) {s' : Stage} {a' : State}
    (habsorbs : a.Absorbs reference k s s' a' b) :
  Inv reference k s' a' b
  where
  toTracks := habsorbs.tracks
  settled o p hop hsettled := by
    rw [Object.isSettled_iff] at hsettled
    obtain hnone | hcheck | hcheck := hsettled
    · rw [(s'.world.alike hop).hasAsserts_eq] at hnone
      exact Object.isSettled_iff.mpr (.inl hnone)
    · obtain ⟨hop, hcheck⟩ := habsorbs.inProgress o p hop hcheck
      exact h.settled o p hop (Object.isSettled_iff.mpr (.inr (.inl hcheck)))
    · exact Object.isSettled_iff.mpr (.inr (.inr (habsorbs.tracks.passed o p hop hcheck)))

/-- Where results are kept, what relates the states goes on to do so if nothing is undone and
all that is kept is confirmed. -/
theorem Inv.kept (h : Inv reference k s a b) {b' : State} (hb : b.Keeps b')
    (settled : ∀ p : Object, p.isSettled b = true → p.isSettled b' = true)
    (confirmed : b'.Confirmed reference s.right) (hnames : b'.names = b.names)
    (hslots : b'.slots = b.slots) :
  Inv reference k s a b'
  where
  mirrors := h.mirrors.keeps le_rfl hb confirmed.stems
  confirmed := confirmed
  names := hnames ▸ h.names
  passed o p hop hpassed := hb.passed (h.passed o p hop hpassed)
  unique := h.unique
  slots := hslots ▸ h.slots
  settled o p hop hsettled := settled p (h.settled o p hop hsettled)

/-- The check of an object of the reference evaluator goes on or has passed, while the object
that it stands for counts as valid. -/
theorem Inv.setCheck (h : Inv reference k s a b) {o p : Object} (hop : s.world.object o p)
    {check : AssertionState} (hcheck : check ≠ .notChecked)
    (ho : checkOf o a = .passed → check = .passed) (hsettled : p.isSettled b = true)
    (hpassed : check = .passed → b.checks[p.id.index]? = some .passed) :
  Inv reference k (s.withSelf o p hop) (Jsonnet.setCheck o check a) b
  := by
  have hfits := h.mirrors.fits
  have hsame : ∀ o' p', s.world.object o' p' → o.id.index = o'.id.index → p' = p := by
    intro o' p' hop' hid
    have hobject := (hfits.object o' p' hop').1
    rw [← hid, (hfits.object o p hop).1] at hobject
    cases hobject
    exact h.unique o p' p hop' hop
  refine ⟨⟨⟨?_, h.mirrors.pending, ?_⟩, h.confirmed, h.names, ?_, ?_, h.slots⟩, ?_⟩
  · exact (hfits.withSelf hop).keeps le_rfl le_rfl (.setCheck ho) (.refl b)
      (hfits.stems.setCheck o check) hfits.stems'
  · rintro o' p' (hself | ⟨rfl, rfl⟩)
    · exact Object.isSettled_setCheck_of_isSettled (h.mirrors.self o' p' hself) o hcheck
    · exact Object.isSettled_setCheck (Repetition.index_lt hfits hop).1 hcheck
  · intro o' p' hop' hcheck'
    have hop' := World.object_of_withSelf hop hop'
    rw [State.getElem?_setCheck] at hcheck'
    split at hcheck'
    case isTrue hid =>
      cases hsame o' p' hop' hid
      obtain ⟨_, -, heq⟩ := Option.map_eq_some_iff.mp hcheck'
      exact hpassed heq
    case isFalse => exact h.passed o' p' hop' hcheck'
  · intro o' p₁ p₂ hop₁ hop₂
    exact h.unique o' p₁ p₂ (World.object_of_withSelf hop hop₁) (World.object_of_withSelf hop hop₂)
  · intro o' p' hop' hsettled'
    have hop' := World.object_of_withSelf hop hop'
    by_cases hid : o.id.index = o'.id.index
    · cases hsame o' p' hop' hid
      exact hsettled
    · rw [Object.isSettled_congr (b := a) (by rw [State.getElem?_setCheck, if_neg hid])] at hsettled'
      exact h.settled o' p' hop' hsettled'

/-- A paired object that counts as valid may be `self`. -/
theorem Inv.withSelf (h : Inv reference k s a b) {o p : Object} (hop : s.world.object o p)
    (hsettled : o.isSettled a = true) :
  Inv reference k (s.withSelf o p hop) a b
  := { h with
    mirrors := { h.mirrors with
      fits := h.mirrors.fits.withSelf hop
      self := by
        rintro o' p' (hself | ⟨rfl, rfl⟩)
        · exact h.mirrors.self o' p' hself
        · exact hsettled }
    passed := fun o' p' hop' => h.passed o' p' (World.object_of_withSelf hop hop')
    unique := fun o' p₁ p₂ hop₁ hop₂ =>
      h.unique o' p₁ p₂ (World.object_of_withSelf hop hop₁) (World.object_of_withSelf hop hop₂)
    settled := fun o' p' hop' => h.settled o' p' (World.object_of_withSelf hop hop') }

/-- The stacks do not matter. -/
theorem Inv.setStacks (h : Inv reference k s a b) (stack stack' : CallStack) :
  Inv reference k s { a with stack } { b with stack := stack' }
  := { h with
    mirrors := { h.mirrors with
      fits := h.mirrors.fits.keeps le_rfl le_rfl (.setStack a stack) (.setStack b stack')
        { h.mirrors.fits.stems with } { h.mirrors.fits.stems' with } }
    confirmed := h.confirmed.setStack stack' }

/-- The value of a thunk that is not ready is kept. -/
theorem perform_pending (hsharing' : memo.sharing = true) {fuel : Nat} {thunk : ThunkId}
    {suspension : Suspension} (h : b.thunks[thunk.index]? = some (.pending suspension)) :
  (Task.force thunk).perform memo (fuel + 1) b
    = ((suspension.run memo).resolve memo (Task.perform memo fuel) b).map
        (Outcome.keep fun b value => b.keepThunk thunk value)
  := by
  have hknown : (Task.force thunk).known? memo b = none := by rw [Task.known?, h]
  have haction : (Task.force thunk).action b = suspension.run := by
    simp only [Task.action, computeThunk, h]
  rw [Task.perform_unknown hknown, haction]
  congr 1
  funext ended
  obtain ⟨outcome, b'⟩ := ended
  cases outcome with
  | error failure => rfl
  | ok value => simp only [Task.settle, hsharing', if_pos, Outcome.keep]

/-- The value of a field that is not kept yet is kept. -/
theorem perform_field (hsharing' : memo.sharing = true) {fuel : Nat} {object : Object}
    {leaf : Leaf} {depth : Nat} {name : Name} {site : Location}
    (h : b.fields[object.fieldKey name depth]? = none) :
  (Task.field object leaf depth name site).perform memo (fuel + 1) b
    = ((computeField object leaf depth name site memo).resolve memo (Task.perform memo fuel)
        b).map (Outcome.keep fun b value => b.keepField (object.fieldKey name depth) value)
  := by
  have hknown : (Task.field object leaf depth name site).known? memo b = none := by
    rw [Task.known?, if_pos hsharing', h]
  rw [Task.perform_unknown hknown]
  congr 1
  funext ended
  obtain ⟨outcome, b'⟩ := ended
  cases outcome with
  | error failure => rfl
  | ok value => simp only [Task.settle, hsharing', if_pos, Outcome.keep]

/-- A record of a stretch of the run of the reference evaluator that goes on. -/
theorem Inv.record (h : Inv reference k s a b) {s' : Stage} {a' b' : State} (hle : s ≤ s')
    (h' : Inv reference k s' a' b') (hb : b.Keeps b') (hasSlots : a'.HasSlots) :
  Record reference s.world s'.world a a' s'.right b'
  where
  le := hle.1
  before := ⟨s.left, h.mirrors.keeps hle.2.2 hb h'.mirrors.fits.stems'⟩
  after := ⟨s'.left, h'.mirrors⟩
  names := h'.names.1
  hasSlots := hasSlots
  passed := h'.passed
  unique := h'.unique

end

/-! ### Thunks and fields -/

/-- Runs in step go on with less fuel. -/
theorem descend {reference memo : Session} {k : Leeway} {fuel : Nat}
    {s : Stage} {a b : State}
    (h : (comparison reference memo k).Meets (fuel + 1) s a b) :
  (comparison reference memo k).Meets fuel s a b
  where
  inv := h.inv
  isOpen := ⟨h.isOpen.size, fun p hp hasAsserts hcheck =>
    (h.isOpen.underCheck p hp hasAsserts hcheck).le (Nat.le_succ fuel)⟩
  room := h.room
  stack := h.stack

section

variable {reference memo : Session} (agrees : reference.Agrees memo)
  (lawful : reference.frontEnd.Lawful) (hsharing : reference.sharing = false)
  (hsharing' : memo.sharing = true) {k : Leeway}
  {fuel : Nat} (hcarries : (comparison reference memo k).Carries fuel)

include agrees lawful hsharing hsharing' hcarries

theorem force {t t' : ThunkId} {S : World .loose → Value → Value → Prop} :
  (comparison reference memo k).CarriesTask (fuel + 1) (.force t) (.force t') S
  := by
  intro s a b x hrelated hmeets hperform hends hallowed _
  have inv : Inv reference k s a b := hmeets.inv
  cases hrelated with
  | force thunk =>
    obtain ⟨su, su', hs, hs', alike⟩ := inv.mirrors.fits.thunk t t' thunk
    have hcell := inv.mirrors.pending.cell hs
    rw [Task.perform_force hsharing hcell] at hperform
    have hlt : t'.index < b.thunks.size := by
      rw [inv.mirrors.fits.stems'.thunks]
      exact (List.getElem?_eq_some_iff.mp hs').choose
    cases hcell' : b.thunks[t'.index] with
    | ready value =>
      have hready := (Array.getElem?_eq_getElem hlt).trans (congrArg some hcell')
      have hrun : ∀ w₀ y, (∃ O₀ a₀, State.Mirrors reference w₀ O₀ a₀ s.right b) →
          BeginsThunk s.right t'.index w₀ y →
          Action.Related reference reference Matching (w₀.between s.world) y su.run := by
        rintro w₀ y - ⟨s₀, s₀', hs₀', alike₀, rfl⟩
        cases hs'.symm.trans hs₀'
        exact run_related (World.between_alike alike₀ alike)
      obtain ⟨u, v, a', P, recorded, again, rfl, habsorbs, hT, hR⟩ :=
        inv.replay lawful hsharing (inv.confirmed.ready hready) hrun hperform
          ⟨inv.replayable hends.state, hends.noOverflow⟩
      exact ⟨_, Task.perform_ready hready, .ok (C := comparison reference memo k) _
        habsorbs.le (inv.absorbs habsorbs) (s.world.through_matches hT hR)⟩
    | pending suspension =>
      have hpending := (Array.getElem?_eq_getElem hlt).trans (congrArg some hcell')
      cases (inv.confirmed.pending hpending).symm.trans hs'
      rw [Task.events_force hcell hperform] at hallowed
      have hrun : Action.Related reference memo Matching s.world su.run su'.run :=
        run_related alike
      obtain ⟨y, hy, hends'⟩ := hcarries hrun (descend hmeets) hperform hends
        (fun e he => hallowed e (by simp [he])) fun h => h.elim
      rw [perform_pending hsharing' hpending, hy]
      refine ⟨_, rfl, hends'.keep ?_⟩
      rintro s' v hle inv' - ⟨v₀, hv₀, hmatch⟩
      obtain ⟨outcome, a'⟩ := x
      cases hv₀
      have hkeeps := (Progress.grows Task.grows hy).keeps (agrees.frontEnd ▸ lawful)
        inv'.confirmed.hasSlots
      have hrecord : Recorded reference s'.right y.2 Matching (BeginsThunk s'.right t'.index) v :=
        .intro (inv.record hle inv' hkeeps hends.state.hasSlots)
          ⟨su, su', Origins.thunk_mono hle.2.2 hs', alike, rfl⟩ hperform hmatch
      exact inv'.kept ⟨le_rfl, id, id⟩ (fun _ => id) (inv'.confirmed.keepThunk hrecord) rfl rfl

theorem field {o p : Object} {l l' : Leaf} {depth depth' : Nat} {name name' : Name}
    {site site' : Location} {S : World .loose → Value → Value → Prop} :
  (comparison reference memo k).CarriesTask (fuel + 1)
    (.field o l depth name site) (.field p l' depth' name' site') S
  := by
  intro s a b x hrelated hmeets hperform hends hallowed _
  have inv : Inv reference k s a b := hmeets.inv
  cases hrelated with
  | field same_site self known hit hit' =>
    rw [Task.perform_field hsharing] at hperform
    rw [Task.events_field hsharing hperform] at hallowed
    have hdepth : depth < maxLeaves := hallowed _ List.mem_cons_self _ rfl
    have hobject := inv.mirrors.fits.object o p (s.world.object_of_self self)
    cases hkept : b.fields[p.fieldKey name depth]? with
    | some value =>
      have hrun : ∀ w₀ y, (∃ O₀ a₀, State.Mirrors reference w₀ O₀ a₀ s.right b) →
          BeginsField s.right (p.fieldKey name depth) w₀ y →
          Action.Related reference reference Matching (w₀.between s.world) y
            (computeField o l depth name site) := by
        rintro w₀ y - ⟨o₀, p₀, l₀, m₀, site₀, self₀, hp₀, known₀, hit₀, -, rfl⟩
        cases hobject.2.symm.trans hp₀
        -- The literal is the same, as its depth is counted exactly.
        have alike₀ := w₀.alike (w₀.object_of_self self₀)
        obtain ⟨-, hnone⟩ | ⟨⟨l₁, d₁⟩, _, hl₁, hfound, -, hd₁⟩ :=
          optionRel_iff.mp (alike₀.find? _ name)
        · rw [hit'] at hnone
          cases hnone
        · cases hit'.symm.trans hfound
          cases hd₁
          cases alike₀.find?_unique hit₀ hl₁ hdepth
          exact field_related (w := w₀.between s.world) ⟨p, self₀, self⟩ ⟨known₀, known⟩ hl₁ hit
            (Terms.agrees_loose _ _)
      obtain ⟨u, v, a', P, recorded, again, rfl, habsorbs, hT, hR⟩ :=
        inv.replay lawful hsharing (inv.confirmed.field hkept) hrun hperform
          ⟨inv.replayable hends.state, hends.noOverflow⟩
      refine ⟨(.ok value, b), ?_, .ok (C := comparison reference memo k) _
        habsorbs.le (inv.absorbs habsorbs) (s.world.through_matches hT hR)⟩
      simp only [Task.perform, Task.known?, hsharing', hkept, if_pos]
    | none =>
      have hrun : Action.Related reference memo Matching s.world
          (computeField o l depth name site) (computeField p l' depth name site') :=
        field_related self known hit hit' same_site
      obtain ⟨y, hy, hends'⟩ := hcarries hrun (descend hmeets) hperform hends
        (fun e he => hallowed e (by simp [he])) fun h => h.elim
      rw [perform_field hsharing' hkept, hy]
      refine ⟨_, rfl, hends'.keep ?_⟩
      rintro s' v hle inv' - ⟨v₀, hv₀, hmatch⟩
      obtain ⟨outcome, a'⟩ := x
      cases hv₀
      have hkeeps := (Progress.grows Task.grows hy).keeps (agrees.frontEnd ▸ lawful)
        inv'.confirmed.hasSlots
      have hrecord : Recorded reference s'.right y.2 Matching
          (BeginsField s'.right (p.fieldKey name depth)) v :=
        .intro (inv.record hle inv' hkeeps hends.state.hasSlots)
          ⟨o, p, l, _, site, self, Origins.object_mono hle.2.2 hobject.2, known, hit, hdepth, rfl⟩
          hperform hmatch
      exact inv'.kept ⟨le_rfl, id, id⟩ (fun _ => id) (inv'.confirmed.keepField hrecord) rfl rfl

end

/-! ### Checks -/

section

variable {reference memo : Session} (agrees : reference.Agrees memo)
  (lawful : reference.frontEnd.Lawful) (hsharing : reference.sharing = false)
  {k : Leeway} {fuel : Nat} {s : Stage} {a b : State}
  {o p : Object}

include lawful hsharing

/-- The reference evaluator does not come to the end of a check that it would have to begin
again inside. -/
theorem not_underCheck (inv : Inv reference k s a b) (hop : s.world.object o p)
    (hunchecked : checkOf o a = .notChecked) (hsettled : p.isSettled b = true)
    {x : Outcome Unit}
    (hx : (checkAssertions o o.assertions reference).resolve reference
      (Task.perform reference fuel) (setCheck o .inProgress a) = some x)
    (hends : x.EndsIn .loose (Within k)) :
  ¬ p.UnderCheck reference (Within k) (fuel + 1) s.right b
  := by
  rintro ⟨w, O, o₀, a₀, mirrors, self, hnone, m, y, hy, hends'⟩
  have inv' : Inv reference k (s.withSelf o p hop) (setCheck o .inProgress a) b :=
    inv.setCheck hop (by simp) (by simp [hunchecked]) hsettled (by simp)
  have hnames := ((Progress.grows Task.grows hx).names lawful.grows).trans hends.state.1
  have hnames' := ((Progress.grows Task.grows hy).names lawful.grows).trans hends'.state.1
  let r := Repetition.ofMirrors (s.withSelf o p hop).world w (setCheck o .inProgress a) a₀ k.names False
  have repeats : r.Inv reference ⟨(s.withSelf o p hop).world.between w, s.left, O⟩
      (setCheck o .inProgress a) a₀ :=
    inv'.mirrors.repeats mirrors ⟨hnames, hnames', False.elim⟩
  have hC := r.lawful_comparison lawful hsharing
  have hrun : Action.Related reference reference Same ((s.withSelf o p hop).world.between w)
      (checkAssertions o o.assertions) (checkAssertions o₀ o₀.assertions) :=
    objectAssertions_related ⟨p, s.world.withSelf_self hop, self⟩
  obtain ⟨z, hz, -⟩ := hC.carries (hC.carriesTask fuel)
    (w := (⟨(s.withSelf o p hop).world.between w, s.left, O⟩ : Stage)) hrun
    ⟨repeats, trivial, fun h => h.elim, fun h => h.elim⟩ hx
    ⟨⟨hends.state.1, hends.state.hasSlots⟩, hends.noOverflow⟩ (fun _ _ => trivial)
    fun _ => ⟨m, y, hy, ⟨.inr hends'.state.1, hends'.state.hasSlots⟩, hends'.noOverflow⟩
  rw [hnone fuel (Nat.lt_succ_self fuel)] at hz
  cases hz

/-- Where the check of an object has passed, the reference evaluator comes to the end of its own
one. -/
theorem check_passed (inv : Inv reference k s a b) (hop : s.world.object o p)
    (hunchecked : o.isSettled a = false) (hpassed : b.checks[p.id.index]? = some .passed)
    {x : Outcome Unit}
    (hx : (checkAssertions o o.assertions reference).resolve reference
      (Task.perform reference fuel) (setCheck o .inProgress a) = some x)
    (hends : x.EndsIn .loose (Within k)) :
  (comparison reference memo k).Ends (fun w _ _ => w.self o p) s
    (Outcome.settleCheck o x) (.ok (), b)
  := by
  obtain ⟨hasAsserts, hnotChecked⟩ := Object.checkOf_of_unsettled hunchecked
  have hsettled := Object.isSettled_iff.mpr (.inr (.inr hpassed))
  have inv' : Inv reference k (s.withSelf o p hop) (setCheck o .inProgress a) b :=
    inv.setCheck hop (by simp) (by simp [hnotChecked]) hsettled (by simp)
  have hrun : ∀ w₀ y, (∃ O₀ a₀, State.Mirrors reference w₀ O₀ a₀ s.right b) →
      BeginsCheck p w₀ y → Action.Related reference reference Same
        (w₀.between (s.withSelf o p hop).world) y (checkAssertions o o.assertions) := by
    rintro w₀ y - ⟨o₀, self₀, rfl⟩
    exact objectAssertions_related ⟨p, self₀, s.world.withSelf_self hop⟩
  have hrecorded := inv.confirmed.passed (inv.mirrors.fits.object o p hop).2
    ((s.world.alike hop).hasAsserts_eq ▸ hasAsserts) hpassed
  obtain ⟨u, v, a', P, recorded, again, rfl, habsorbs, -, -⟩ :=
    inv'.replay lawful hsharing hrecorded hrun hx ⟨inv.replayable hends.state, hends.noOverflow⟩
  have hle := (s.le_withSelf hop).trans habsorbs.le
  have hop' := Pairing.object_mono hle.1 hop
  have inv'' := (inv'.absorbs habsorbs).setCheck hop' (by simp) (fun _ => rfl) hsettled
    fun _ => hpassed
  exact .ok (C := comparison reference memo k) _ (hle.trans (Stage.le_withSelf _ hop'))
    inv'' (World.withSelf_self _ hop')

include agrees in
omit hsharing in
/-- Checks that both runs begin. -/
theorem check_unsettled
    (hcarries : ∀ fuel' ≤ fuel, (comparison reference memo k).Carries fuel')
    (hmeets : (comparison reference memo k).Meets (fuel + 1) s a b)
    (hop : s.world.object o p) (hunchecked : o.isSettled a = false)
    (hunchecked' : p.isSettled b = false) {x : Outcome Unit}
    (hx : (checkAssertions o o.assertions reference).resolve reference
      (Task.perform reference fuel) (setCheck o .inProgress a) = some x)
    (hends : x.EndsIn .loose (Within k))
    (hallowed : ∀ e ∈ (checkAssertions o o.assertions reference).events reference
      (Task.perform reference fuel) (Task.events reference fuel) (setCheck o .inProgress a),
      ∀ key, e = .begins (.field key) → key.depth < maxLeaves) :
  ∃ y, (checkAssertions p p.assertions memo).resolve memo (Task.perform memo fuel)
      (setCheck p .inProgress b) = some y ∧
    (comparison reference memo k).Ends (fun w _ _ => w.self o p) s
      (Outcome.settleCheck o x) (Outcome.settleCheck p y)
  := by
  classical
  have inv : Inv reference k s a b := hmeets.inv
  have hobject := inv.mirrors.fits.object o p hop
  obtain ⟨hlt, hlt'⟩ := Repetition.index_lt inv.mirrors.fits hop
  obtain ⟨-, hnotChecked⟩ := Object.checkOf_of_unsettled hunchecked
  obtain ⟨hasAsserts', hnotChecked'⟩ := Object.checkOf_of_unsettled hunchecked'
  -- The least fuel with which the reference evaluator comes to the end of the check.
  have hfound : ∃ m x, (checkAssertions o o.assertions reference).resolve reference
      (Task.perform reference m) (setCheck o .inProgress a) = some x := ⟨fuel, x, hx⟩
  obtain ⟨x', hx'⟩ := Nat.find_spec hfound
  have hleast : ∀ m < Nat.find hfound, (checkAssertions o o.assertions reference).resolve reference
      (Task.perform reference m) (setCheck o .inProgress a) = none := by
    intro m hm
    exact Option.eq_none_iff_forall_ne_some.mpr fun x hx => Nat.find_min hfound hm ⟨x, hx⟩
  have hle : Nat.find hfound ≤ fuel := Nat.find_min' hfound ⟨x, hx⟩
  cases Progress.resolve_unique hx hx'
  rw [Progress.events_le hle hx'] at hallowed
  -- Both checks begin, and meanwhile the objects may be `self`.
  have hkeeps : b.Keeps (setCheck p .inProgress b) := .setCheck (by simp [hnotChecked'])
  have confirmed : (setCheck p .inProgress b).Confirmed reference s.right :=
    inv.confirmed.setCheck hobject.2 (by simp [hnotChecked']) (by simp)
  have begun : Inv reference k (s.withSelf o p hop) (setCheck o .inProgress a)
      (setCheck p .inProgress b) :=
    (inv.kept hkeeps (fun q hq => Object.isSettled_setCheck_of_isSettled hq p (by simp)) confirmed
      rfl rfl).setCheck hop (by simp) (by simp [hnotChecked])
      (Object.isSettled_setCheck hlt' (by simp)) (by simp)
  have hopen : (comparison reference memo k).Open (Nat.find hfound)
      (s.withSelf o p hop) (setCheck p .inProgress b) := by
    refine ⟨(State.size_setCheck p _).trans_le hmeets.isOpen.size, ?_⟩
    intro q hq hasAsserts hcheck
    rw [State.getElem?_setCheck] at hcheck
    split at hcheck
    case isTrue hid =>
      have hq : s.right.objects[q.id.index]? = some q := hq
      rw [← hid, hobject.2] at hq
      cases hq
      exact ⟨_, _, o, _, begun.mirrors, s.world.withSelf_self hop, hleast, _, x, hx', hends⟩
    case isFalse =>
      exact ((hmeets.isOpen.underCheck q hq hasAsserts hcheck).le
        (hle.trans (Nat.le_succ fuel))).keeps le_rfl hkeeps confirmed.stems
  have hrun : Action.Related reference memo Same (s.withSelf o p hop).world
      (checkAssertions o o.assertions) (checkAssertions p p.assertions) :=
    objectAssertions_related (s.world.withSelf_self hop)
  obtain ⟨y, hy, hends'⟩ := hcarries (Nat.find hfound) hle (w := s.withSelf o p hop) hrun
    ⟨begun, hopen, hmeets.room, hmeets.stack⟩ hx' hends hallowed False.elim
  refine ⟨y, Progress.resolve_le hle hy, ?_⟩
  have hgrows := Progress.grows Task.grows hy
  have hcheck : y.2.checks[p.id.index]? = some .inProgress := by
    have hbegun : (setCheck p .inProgress b).checks[p.id.index]? = some .inProgress := by
      rw [State.getElem?_setCheck, if_pos rfl, Array.getElem?_eq_getElem hlt']
      rfl
    obtain ⟨new, hnew, hbecomes⟩ := hgrows.check hbegun
    cases hbecomes
    exact hnew
  have hinProgress : checkOf p y.2 = .inProgress := by rw [checkOf, hcheck]; rfl
  refine (hends'.settleCheck ?_ ?_).weaken (s.le_withSelf hop)
  · intro s' hle' hok inv'
    have inv' : Inv reference k s' x.2 y.2 := inv'
    have hself := Pairing.self_mono hle'.1 (s.world.withSelf_self hop)
    have hop' := s'.world.object_of_self hself
    obtain ⟨outcome, a'⟩ := x
    cases hok
    have hrecord : Recorded reference s'.right y.2 Same (BeginsCheck p) () :=
      .intro (begun.record hle' inv' (hgrows.keeps (agrees.frontEnd ▸ lawful) inv'.confirmed.hasSlots)
        hends.state.hasSlots) ⟨o, s.world.withSelf_self hop, rfl⟩ hx' rfl
    have passed : Inv reference k s' a' (setCheck p .passed y.2) :=
      inv'.kept (.setCheck fun _ => rfl)
        (fun q hq => Object.isSettled_setCheck_of_isSettled hq p (by simp))
        (inv'.confirmed.setCheck (Origins.object_mono hle'.2.2 hobject.2) (fun _ => rfl)
          fun _ => hrecord) rfl rfl
    have hpassed : (setCheck p .passed y.2).checks[p.id.index]? = some .passed := by
      rw [State.getElem?_setCheck, if_pos rfl, hcheck]
      rfl
    refine ⟨s'.withSelf o p hop', hle'.trans (s'.le_withSelf hop'), ?_, World.withSelf_self _ hop'⟩
    exact passed.setCheck hop' (by simp) (fun _ => rfl)
      (Object.isSettled_iff.mpr (.inr (.inr hpassed))) fun _ => hpassed
  · intro s' a' hle' sound
    exact ⟨sound.1.setCheck (Origins.object_mono hle'.2.2 hobject.2) (by simp [hinProgress]) (by simp),
      sound.2⟩

include agrees in
theorem check {S : World .loose → Unit → Unit → Prop}
    (hcarries : ∀ fuel' ≤ fuel, (comparison reference memo k).Carries fuel') :
  (comparison reference memo k).CarriesTask (fuel + 1) (.check o) (.check p) S
  := by
  intro s a b x hrelated hmeets hperform hends hallowed _
  have inv : Inv reference k s a b := hmeets.inv
  cases hrelated with
  | check hop =>
    cases hsettled : o.isSettled a with
    | true =>
      rw [Task.perform_check_settled hsettled] at hperform
      cases hperform
      refine ⟨_, Task.perform_check_settled (inv.settled o p hop hsettled), ?_⟩
      exact .ok (C := comparison reference memo k) (s.withSelf o p hop)
        (s.le_withSelf hop) (inv.withSelf hop hsettled) (s.world.withSelf_self hop)
    | false =>
      obtain ⟨hasAsserts, hnotChecked⟩ := Object.checkOf_of_unsettled hsettled
      have hasAsserts' : p.hasAsserts = true := (s.world.alike hop).hasAsserts_eq ▸ hasAsserts
      rw [Task.perform_check hsettled] at hperform
      rw [Task.events_check hsettled] at hallowed
      obtain ⟨x, hx, rfl⟩ := Option.map_eq_some_iff.mp hperform
      have hends : x.EndsIn .loose (Within k) := ⟨hends.state, hends.noOverflow⟩
      cases hsettled' : p.isSettled b with
      | true =>
        obtain hnone | hcheck | hpassed := Object.isSettled_iff.mp hsettled'
        · rw [hasAsserts'] at hnone
          cases hnone
        · have hopen := hmeets.isOpen.underCheck p (inv.mirrors.fits.object o p hop).2 hasAsserts' hcheck
          exact absurd hopen
            (not_underCheck lawful hsharing inv hop hnotChecked hsettled' hx hends)
        · exact ⟨_, Task.perform_check_settled hsettled',
            check_passed lawful hsharing inv hop hsettled hpassed hx hends⟩
      | false =>
        obtain ⟨y, hy, hends'⟩ :=
          check_unsettled agrees lawful hcarries hmeets hop hsettled hsettled' hx hends hallowed
        rw [Task.perform_check hsettled', hy]
        exact ⟨_, rfl, hends'⟩

end

/-! ### Runs -/

section

variable {reference memo : Session} (agrees : reference.Agrees memo)
  (lawful : reference.frontEnd.Lawful) (hsharing : reference.sharing = false)
  (hsharing' : memo.sharing = true) {k : Leeway}

include agrees lawful hsharing hsharing'

/-- What the comparison has to fulfil. -/
theorem lawful_comparison :
  (comparison reference memo k).Lawful
  where
  agrees := agrees
  world_mono h := h.1
  sound inv := ⟨inv.confirmed, inv.names⟩
  names hexact := hexact.elim
  inv_stack s t h := h.setStacks s t
  sound_stack _ t h := ⟨h.1.setStack t, h.2⟩
  open_stack t h := ⟨h.size, fun p hp hasAsserts hcheck =>
    (h.underCheck p hp hasAsserts hcheck).setStack t⟩
  open_mono {fuel fuel' w w' a' b b'} h hle hle' hgrows sound := by
    have confirmed : b'.Confirmed reference w'.right := sound.1
    refine ⟨confirmed.stems.objects.le, ?_⟩
    intro p hp hasAsserts hcheck
    have hcheck := hgrows.inProgress hcheck
    have hlt := (Array.getElem?_eq_some_iff.mp hcheck).choose.trans_le h.size
    have hp' : w.right.objects[p.id.index]? = some p := by
      have hold := List.getElem?_eq_getElem hlt
      rw [Origins.object_mono hle'.2.2 hold] at hp
      rw [hold, hp]
    exact ((h.underCheck p hp' hasAsserts hcheck).le hle).keeps hle'.2.2
      (hgrows.keeps (agrees.frontEnd ▸ lawful) confirmed.hasSlots) confirmed.stems
  within := {
    stack := fun _ h => h
    grows := fun h h' => ⟨(h.names lawful.grows).trans h'.1,
      (Nat.add_le_add_right h.slotCount _).trans h'.2⟩ }
  within' := {
    stack := fun _ h => h
    grows := fun _ _ => trivial }
  operation hop inv _ hwithin _ := operation agrees lawful hop inv hwithin
  task := by
    intro fuel hcarries task task' S hkept w a b x hrelated
    have hcarries' : (comparison reference memo k).Carries fuel := hcarries fuel le_rfl
    cases hrelated with
    | force thunk => exact force agrees lawful hsharing hsharing' hcarries' (.force thunk)
    | field same_site self known hit hit' =>
      exact field agrees lawful hsharing hsharing' hcarries' (.field same_site self known hit hit')
    | check object => exact check agrees lawful hsharing hcarries (.check object)
    | _ => cases hkept

end

end Agreement

end Jsonnet
