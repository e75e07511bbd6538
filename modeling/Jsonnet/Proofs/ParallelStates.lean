import Jsonnet.Proofs.ParallelExpressions
import Jsonnet.Proofs.Twins

/-!
# States in parallel

States of two runs are akin if what they hold under live numbers is akin, and what they hold
under names is akin under the names that stand for each other. What a front end does, and which
names stand for each other, is left to an accord: it says what interning and compiling the same
text in both runs comes to.
-/

namespace Jsonnet

/-! ### Tables -/

/-- Tables of one size in which what stands under live numbers is related. -/
structure LiveRel {α β : Type} (live : Nat → Prop) (R : α → β → Prop) (xs : Array α)
    (ys : Array β) : Prop where
  size_eq : xs.size = ys.size
  related : ∀ i, live i → ∃ x y, xs[i]? = some x ∧ ys[i]? = some y ∧ R x y

namespace LiveRel

variable {α β : Type} {live : Nat → Prop} {R S : α → β → Prop} {xs : Array α} {ys : Array β}

theorem imp (h : LiveRel live R xs ys) (hRS : ∀ x y, R x y → S x y) :
  LiveRel live S xs ys
  where
  size_eq := h.size_eq
  related i hi := by
    obtain ⟨x, y, hx, hy, hxy⟩ := h.related i hi
    exact ⟨x, y, hx, hy, hRS x y hxy⟩

/-- What is live is there. -/
theorem lt_size (h : LiveRel live R xs ys) {i : Nat} (hi : live i) :
  i < xs.size
  := by
  obtain ⟨x, -, hx, -⟩ := h.related i hi
  exact (Array.getElem?_eq_some_iff.mp hx).choose

/-- Setting what stands at one place, to related things if the place is live. -/
theorem set (h : LiveRel live R xs ys) (i : Nat) {x : α} {y : β} (hxy : live i → R x y) :
  LiveRel live R (xs.setIfInBounds i x) (ys.setIfInBounds i y)
  where
  size_eq := by
    rw [Array.size_setIfInBounds, Array.size_setIfInBounds, h.size_eq]
  related j hj := by
    obtain ⟨u, v, hu, hv, huv⟩ := h.related j hj
    rw [Array.getElem?_setIfInBounds, Array.getElem?_setIfInBounds, hu, hv]
    split
    case isTrue heq =>
      cases heq
      have hlt := h.lt_size hj
      rw [if_pos hlt, if_pos (h.size_eq ▸ hlt)]
      exact ⟨x, y, rfl, rfl, hxy hj⟩
    case isFalse => exact ⟨u, v, rfl, rfl, huv⟩

/-- Appending related things; those at some new places need not be live. -/
theorem append (h : LiveRel live R xs ys) {now : Nat → Prop} {us : List α} {vs : List β}
    (length : us.length = vs.length)
    (hnow : ∀ i, now i → live i ∨
      ∃ k u v, i = xs.size + k ∧ us[k]? = some u ∧ vs[k]? = some v ∧ R u v) :
  LiveRel now R (xs ++ us) (ys ++ vs)
  where
  size_eq := by
    have hsize : ∀ {γ : Type} (zs : Array γ) (l : List γ), (zs ++ l).size = zs.size + l.length := by
      intro γ zs l
      rw [← Array.length_toList, Array.toList_appendList, List.length_append, Array.length_toList]
    rw [hsize, hsize, h.size_eq, length]
  related i hi := by
    rw [← Array.getElem?_toList, ← Array.getElem?_toList, Array.toList_appendList,
      Array.toList_appendList]
    obtain hi | ⟨k, u, v, rfl, hu, hv, huv⟩ := hnow i hi
    · obtain ⟨x, y, hx, hy, hxy⟩ := h.related i hi
      have hlt := h.lt_size hi
      rw [List.getElem?_append_left (by simpa using hlt), Array.getElem?_toList,
        List.getElem?_append_left (by simpa [← h.size_eq] using hlt), Array.getElem?_toList]
      exact ⟨x, y, hx, hy, hxy⟩
    · rw [List.getElem?_append_right (by simp), List.getElem?_append_right (by simp [h.size_eq]),
        Array.length_toList, Array.length_toList, ← h.size_eq, Nat.add_sub_cancel_left]
      exact ⟨u, v, hu, hv, huv⟩

end LiveRel

namespace Partly

variable {α β : Type} {R : α → β → Prop} {ps : List Prop} {xs : List α} {ys : List β}

/-- What is asked for at a position is related. -/
theorem get (h : Partly R ps xs ys) {k : Nat} {p : Prop} (hk : ps[k]? = some p) (hp : p) :
  ∃ x y, xs[k]? = some x ∧ ys[k]? = some y ∧ R x y
  := by
  induction h generalizing k with
  | nil => cases hk
  | cons head _ ih =>
    cases k with
    | zero =>
      cases hk
      exact ⟨_, _, rfl, rfl, head hp⟩
    | succ k => exact ih hk

/-- Lists are related where positions are. -/
theorem of_get (hxs : ps.length = xs.length) (hys : xs.length = ys.length)
    (h : ∀ (k : Nat) (p : Prop) x y, ps[k]? = some p → p → xs[k]? = some x → ys[k]? = some y →
      R x y) :
  Partly R ps xs ys
  := by
  induction xs generalizing ps ys with
  | nil =>
    rw [List.length_eq_zero_iff.mp hxs, List.length_eq_zero_iff.mp hys.symm]
    exact .nil
  | cons x xs ih =>
    cases ps with
    | nil => cases hxs
    | cons p ps =>
      cases ys with
      | nil => cases hys
      | cons y ys =>
        refine .cons (fun hp => h 0 p x y rfl hp rfl rfl) ?_
        exact ih (Nat.succ.inj hxs) (Nat.succ.inj hys) fun k => h (k + 1)

end Partly

/-! ### Maps -/

/-- Maps that hold related things under keys that stand for each other. -/
structure MapRel {α β : Type} [BEq α] [Hashable α] (K : α → α → Prop) (R : β → β → Prop)
    (m m' : Std.HashMap α β) : Prop where
  left : ∀ {k v}, m[k]? = some v → ∃ k' v', K k k' ∧ m'[k']? = some v' ∧ R v v'
  right : ∀ {k' v'}, m'[k']? = some v' → ∃ k v, K k k' ∧ m[k]? = some v

namespace MapRel

variable {α β : Type} [BEq α] [LawfulBEq α] [Hashable α] [LawfulHashable α] {K L : α → α → Prop}
  {R S : β → β → Prop} {m m' : Std.HashMap α β}

omit [LawfulBEq α] [LawfulHashable α] in
theorem imp (h : MapRel K R m m') (hKL : ∀ k k', K k k' → L k k') (hRS : ∀ v v', R v v' → S v v') :
  MapRel L S m m'
  where
  left hv := by
    obtain ⟨k', v', hk, hv', hr⟩ := h.left hv
    exact ⟨k', v', hKL _ _ hk, hv', hRS _ _ hr⟩
  right hv' := by
    obtain ⟨k, v, hk, hv⟩ := h.right hv'
    exact ⟨k, v, hKL _ _ hk, hv⟩

variable (unique : ∀ {k k' l l'}, K k k' → K l l' → (k = l ↔ k' = l'))

include unique

omit [LawfulBEq α] [LawfulHashable α] in
/-- What is held under keys that stand for each other. -/
theorem get (h : MapRel K R m m') {k k' : α} (hk : K k k') :
  Option.Rel R m[k]? m'[k']?
  := by
  cases hm : m[k]? with
  | some v =>
    obtain ⟨l', v', hl, hm', hr⟩ := h.left hm
    cases (unique hk hl).mp rfl
    rw [hm']
    exact .some hr
  | none =>
    cases hm' : m'[k']? with
    | none => exact .none
    | some v' =>
      obtain ⟨l, v, hl, hv⟩ := h.right hm'
      cases (unique hk hl).mpr rfl
      cases hm.symm.trans hv

theorem insert (h : MapRel K R m m') {k k' : α} (hk : K k k') {v v' : β} (hr : R v v') :
  MapRel K R (m.insert k v) (m'.insert k' v')
  where
  left {l u} hu := by
    rw [Std.HashMap.getElem?_insert] at hu
    split at hu
    case isTrue heq =>
      cases beq_iff_eq.mp heq
      cases hu
      exact ⟨k', v', hk, Std.HashMap.getElem?_insert_self, hr⟩
    case isFalse hne =>
      obtain ⟨l', u', hl, hu', hr'⟩ := h.left hu
      refine ⟨l', u', hl, ?_, hr'⟩
      rw [Std.HashMap.getElem?_insert, if_neg, hu']
      rw [beq_iff_eq, ← unique hk hl, ← beq_iff_eq (a := k)]
      exact hne
  right {l' u'} hu := by
    rw [Std.HashMap.getElem?_insert] at hu
    split at hu
    case isTrue heq =>
      cases beq_iff_eq.mp heq
      exact ⟨k, v, hk, Std.HashMap.getElem?_insert_self⟩
    case isFalse hne =>
      obtain ⟨l, u, hl, hu'⟩ := h.right hu
      refine ⟨l, u, hl, ?_⟩
      rw [Std.HashMap.getElem?_insert, if_neg, hu']
      rw [beq_iff_eq, unique hk hl, ← beq_iff_eq (a := k')]
      exact hne

end MapRel

/-- Keys of fields of the same object and depth, under names that stand for each other. -/
structure FieldKey.Akin (ν : Name → Name → Prop) (k k' : FieldKey) : Prop where
  object : k.object = k'.object
  name : ν k.name k'.name
  depth : k.depth = k'.depth

theorem FieldKey.Akin.eq_iff {w : Bond} {k k' l l' : FieldKey} (h : k.Akin w.name k')
    (h' : l.Akin w.name l') :
  k = l ↔ k' = l'
  := by
  obtain ⟨id, n, depth⟩ := k
  obtain ⟨id', n', depth'⟩ := k'
  obtain ⟨id₁, m, depth₁⟩ := l
  obtain ⟨id₁', m', depth₁'⟩ := l'
  obtain ⟨rfl, name, rfl⟩ := h
  obtain ⟨rfl, name', rfl⟩ := h'
  rw [FieldKey.mk.injEq, FieldKey.mk.injEq, Bond.eq_iff name name']

/-! ### States -/

section

variable (κ : Kinship) (w : Bond)

/-- Entries with the same answer and akin codes. -/
structure ImportEntry.Akin (e e' : ImportEntry Deferred) : Prop where
  answer : e.answer = e'.answer
  code : Option.Rel (fun d d' => Jsonnet.Akin κ w (.deferred d) (.deferred d')) e.code e'.code

/-- Import caches with akin entries. -/
def ImportCache.Akin (c c' : ImportCache Deferred) : Prop :=
  ∀ key : String × String, Option.Rel (ImportEntry.Akin κ w) c.entries[key]? c'.entries[key]?

/-- States of which what is live is akin. -/
structure State.Akin (a b : State) : Prop where
  frames : List.Forall₂ (Frame.Akin w.name) a.stack.frames b.stack.frames
  room : a.stack.room = b.stack.room
  thunks : LiveRel (fun i => w.thunk ⟨i⟩) (Cell.Akin κ w) a.thunks b.thunks
  slots : LiveRel (fun i => w.slot ⟨i⟩)
    (fun d d' => Jsonnet.Akin κ w (.deferred d) (.deferred d')) a.slots.entries b.slots.entries
  full : ¬ κ.dead → ∀ i < a.slots.size, w.slot ⟨i⟩
  checks : a.checks = b.checks
  fields : MapRel (FieldKey.Akin w.name)
    (fun v v' => Jsonnet.Akin κ w (.value v) (.value v')) a.fields b.fields
  imports : a.imports.Akin κ w b.imports
  externals : MapRel w.name (fun d d' => Jsonnet.Akin κ w (.deferred d) (.deferred d')) a.externals
    b.externals

end

/-- The second bond has the live thunks and slots of the first, and at least its names. -/
structure Bond.Renames (w w' : Bond) : Prop where
  le : w ≤ w'
  thunk : w'.thunk = w.thunk
  slot : w'.slot = w.slot

theorem Bond.Renames.refl (w : Bond) :
  w.Renames w
  := ⟨le_rfl, rfl, rfl⟩

theorem Bond.Renames.trans {u v w : Bond} (huv : u.Renames v) (hvw : v.Renames w) :
  u.Renames w
  := ⟨huv.le.trans hvw.le, hvw.thunk.trans huv.thunk, hvw.slot.trans huv.slot⟩

variable {κ : Kinship} {u w w' : Bond} {a b : State}

theorem ImportCache.Akin.mono {c c' : ImportCache Deferred} (h : c.Akin κ u c') (hle : u ≤ w) :
  c.Akin κ w c'
  := by
  intro key
  apply optionRel_imp _ (h key)
  intro e e' he
  exact ⟨he.answer, optionRel_imp (fun _ _ hd => hd.mono hle) he.code⟩

namespace State.Akin

/-- Akin states with other thunks and slots, under a larger bond. -/
theorem grow (h : a.Akin κ w b) (hle : w ≤ w') {ts ts' : Array Cell} {ss ss' : Slots}
    (thunks : LiveRel (fun i => w'.thunk ⟨i⟩) (Cell.Akin κ w') ts ts')
    (slots : LiveRel (fun i => w'.slot ⟨i⟩)
      (fun d d' => Jsonnet.Akin κ w' (.deferred d) (.deferred d')) ss.entries ss'.entries)
    (full : ¬ κ.dead → ∀ i < ss.size, w'.slot ⟨i⟩) :
  ({ a with thunks := ts, slots := ss } : State).Akin κ w' { b with thunks := ts', slots := ss' }
  where
  frames := h.frames.imp fun _ _ hf => hf.mono hle.1
  room := h.room
  thunks := thunks
  slots := slots
  full := full
  checks := h.checks
  fields := h.fields.imp (fun _ _ hk => ⟨hk.object, Bond.name_mono hle hk.name, hk.depth⟩)
    fun _ _ hv => hv.mono hle
  imports := h.imports.mono hle
  externals := h.externals.imp (fun _ _ name => Bond.name_mono hle name) fun _ _ hd => hd.mono hle

/-- Akin states stay akin while more names stand for each other. -/
theorem mono (h : a.Akin κ w b) (hle : w.Renames w') :
  a.Akin κ w' b
  := by
  apply h.grow hle.le
  · rw [hle.thunk]
    exact h.thunks.imp fun _ _ hc => hc.mono hle.le
  · rw [hle.slot]
    exact h.slots.imp fun _ _ hd => hd.mono hle.le
  · rw [hle.slot]
    exact h.full

section

variable (h : a.Akin κ w b)

include h

theorem setNames (m n : Interner) :
  ({ a with names := m } : State).Akin κ w { b with names := n }
  := { h with }

theorem setStack {s t : CallStack} (frames : List.Forall₂ (Frame.Akin w.name) s.frames t.frames)
    (room : s.room = t.room) :
  ({ a with stack := s } : State).Akin κ w { b with stack := t }
  := { h with frames, room }

theorem setCounters (c c' : Counters) :
  ({ a with counters := c } : State).Akin κ w { b with counters := c' }
  := { h with }

theorem setCheck {o p : Object} (hid : o.id = p.id) (check : AssertionState) :
  (Jsonnet.setCheck o check a).Akin κ w (Jsonnet.setCheck p check b)
  := by
  refine { h with checks := ?_ }
  simp only [Jsonnet.setCheck]
  rw [h.checks, hid]

theorem isSettled_eq {o p : Object} (object : Jsonnet.Akin κ w (.object o) (.object p)) :
  o.isSettled a = p.isSettled b
  := by
  rw [Object.isSettled, Object.isSettled, checkOf, checkOf, h.checks, object.object_id,
    object.object_hasAsserts]

/-- The values that are kept for a field. -/
theorem field {n n' : Name} (name : w.name n n') (id : ObjectId) (depth : Nat) :
  Option.Rel (fun v v' => Jsonnet.Akin κ w (.value v) (.value v'))
    a.fields[(⟨id, n, depth⟩ : FieldKey)]? b.fields[(⟨id, n', depth⟩ : FieldKey)]?
  := h.fields.get FieldKey.Akin.eq_iff ⟨rfl, name, rfl⟩

/-- The deferred values that are kept for an external variable. -/
theorem externalOf {n n' : Name} (name : w.name n n') :
  Option.Rel (fun d d' => Jsonnet.Akin κ w (.deferred d) (.deferred d')) a.externals[n]?
    b.externals[n']?
  := h.externals.get Bond.eq_iff name

theorem keepThunk (t : ThunkId) {v v' : Value} (value : Jsonnet.Akin κ w (.value v) (.value v')) :
  (a.keepThunk t v).Akin κ w (b.keepThunk t v')
  := { h with thunks := h.thunks.set t.index fun _ => .ready value }

theorem keepField (id : ObjectId) (depth : Nat) {n n' : Name} (name : w.name n n') {v v' : Value}
    (value : Jsonnet.Akin κ w (.value v) (.value v')) :
  (a.keepField ⟨id, n, depth⟩ v).Akin κ w (b.keepField ⟨id, n', depth⟩ v')
  := by
  have hkey : FieldKey.Akin w.name ⟨id, n, depth⟩ ⟨id, n', depth⟩ := ⟨rfl, name, rfl⟩
  exact { h with fields := h.fields.insert FieldKey.Akin.eq_iff hkey value }

theorem keepExternal {n n' : Name} (name : w.name n n') {d d' : Deferred}
    (deferred : Jsonnet.Akin κ w (.deferred d) (.deferred d')) :
  ({ a with externals := a.externals.insert n d } : State).Akin κ w
    { b with externals := b.externals.insert n' d' }
  := { h with externals := h.externals.insert Bond.eq_iff name deferred }

end

end State.Akin

/-! ### New thunks and slots -/

/-- The bond in which more thunks and slots are live. -/
def Bond.extend (w : Bond) (thunk : ThunkId → Prop) (slot : SlotId → Prop) : Bond :=
  { w with
    thunk := fun t => w.thunk t ∨ thunk t
    slot := fun s => w.slot s ∨ slot s }

theorem Bond.le_extend (w : Bond) (thunk : ThunkId → Prop) (slot : SlotId → Prop) :
  w ≤ w.extend thunk slot
  := ⟨fun _ _ h => h, fun _ h => .inl h, fun _ h => .inl h⟩

/-- The thunks behind the first `size` that are live. -/
def freshThunks (size : Nat) (live : List Prop) (t : ThunkId) : Prop :=
  ∃ k p, live[k]? = some p ∧ p ∧ t.index = size + k

namespace State.Akin

/-- New cells of suspensions of which the live ones are akin. -/
theorem appendThunks (h : a.Akin κ w b) (hle : w ≤ w') {live : List Prop} {ss ss' : List Suspension}
    (kin : Partly (AkinAs κ .suspension w') live ss ss')
    (hnow : ∀ t, w'.thunk t → w.thunk t ∨ freshThunks a.thunks.size live t) :
  LiveRel (fun i => w'.thunk ⟨i⟩) (Cell.Akin κ w') (a.thunks ++ ss.map Cell.pending)
    (b.thunks ++ ss'.map Cell.pending)
  := by
  have hold := h.thunks.imp fun _ _ (hc : Cell.Akin κ w _ _) => hc.mono hle
  apply hold.append
  · rw [List.length_map, List.length_map, kin.length_eq]
  · intro i hi
    obtain hi | ⟨k, p, hk, hp, hindex⟩ := hnow _ hi
    · exact .inl hi
    · obtain ⟨s, s', hs, hs', hkin⟩ := kin.get hk hp
      refine .inr ⟨k, .pending s, .pending s', hindex, ?_, ?_, .pending hkin⟩
      · rw [List.getElem?_map, hs]
        rfl
      · rw [List.getElem?_map, hs']
        rfl

/-- The deferred values of new thunks. -/
theorem freshThunks_akin (h : a.Akin κ w b) {live : List Prop} {count count' : Nat}
    (hcount : live.length = count) (heq : count = count')
    (alive : ∀ t, freshThunks a.thunks.size live t → w'.thunk t) :
  Partly (AkinAs κ .deferred w') live
    ((List.range' a.thunks.size count).map fun index => .shared ⟨index⟩)
    ((List.range' b.thunks.size count').map fun index => .shared ⟨index⟩)
  := by
  rw [← heq, ← h.thunks.size_eq]
  apply Partly.of_get
  · rw [List.length_map, List.length_range', hcount]
  · rfl
  · intro k p x y hk hp hx hy
    cases hx.symm.trans hy
    rw [List.getElem?_map, Option.map_eq_some_iff] at hx
    obtain ⟨i, hi, rfl⟩ := hx
    rw [List.getElem?_range'] at hi
    · cases hi
      exact .shared (alive _ ⟨k, p, hk, hp, by simp⟩)
    · have := (List.getElem?_eq_some_iff.mp hk).choose
      omega

/-- Sharing suspensions of which the live ones are akin. -/
theorem share (h : a.Akin κ w b) {live : List Prop} {ss ss' : List Suspension}
    (kin : Partly (AkinAs κ .suspension w) live ss ss') :
  ∃ w', w ≤ w' ∧ w'.name = w.name ∧ (a.share ss).2.Akin κ w' (b.share ss').2 ∧
    Partly (AkinAs κ .deferred w') live (a.share ss).1 (b.share ss').1
  := by
  let w' := w.extend (freshThunks a.thunks.size live) fun _ => False
  have hle : w ≤ w' := w.le_extend _ _
  refine ⟨w', hle, rfl, ?_, ?_⟩
  · have hslot : w'.slot = w.slot := by
      funext s
      exact propext (or_iff_left id)
    have hthunks := h.appendThunks hle (kin.imp fun _ _ hs => hs.mono hle) fun _ ht => ht
    have hslots : LiveRel (fun i => w'.slot ⟨i⟩)
        (fun d d' => Jsonnet.Akin κ w' (.deferred d) (.deferred d')) a.slots.entries
        b.slots.entries := by
      rw [hslot]
      exact h.slots.imp fun _ _ hd => hd.mono hle
    exact h.grow hle hthunks hslots (by rw [hslot]; exact h.full)
  · exact h.freshThunks_akin kin.length_left kin.length_eq fun _ ht => .inr ht

end State.Akin

/-- Binding the same slots, to related things where a slot is live. -/
theorem LiveRel.fillAll {live : Nat → Prop} {R : Deferred → Deferred → Prop} {slots slots' : Slots}
    (h : LiveRel live R slots.entries slots'.entries) {ps : List Prop} {ds ds' : List Deferred}
    (hds : Partly R ps ds ds') {numbers : List SlotId}
    (alive : ∀ (k : Nat) number p, numbers[k]? = some number → ps[k]? = some p →
      live number.index → p) :
  LiveRel live R (slots.fillAll (numbers.zip ds)).entries (slots'.fillAll (numbers.zip ds')).entries
  := by
  induction hds generalizing numbers slots slots' with
  | nil =>
    rw [List.zip_nil_right]
    exact h
  | cons head _ ih =>
    cases numbers with
    | nil => exact h
    | cons number numbers =>
      have hset := h.set number.index fun hlive => head (alive 0 number _ rfl rfl hlive)
      exact ih hset fun k => alive (k + 1)

/-- The slots behind the first `size` that are live: all slots there are then, unless some are
dead. -/
def freshSlots (dead : Prop) (size : Nat) (live : List Prop) (s : SlotId) : Prop :=
  s.index < size + live.length ∧
    (dead → ∃ k p, live[k]? = some p ∧ p ∧ s.index = size + k)

namespace State.Akin

/-- The slots that are reserved by a `local` expression. -/
theorem reserve (h : a.Akin κ w b) (hle : w ≤ w') {live : List Prop} {count : Nat}
    (length : live.length = count)
    (hnow : ∀ s, w'.slot s → w.slot s ∨ freshSlots κ.dead a.slots.size live s) :
  LiveRel (fun i => w'.slot ⟨i⟩)
    (fun d d' => Jsonnet.Akin κ w' (.deferred d) (.deferred d'))
    (a.slots.reserve count).2.entries (b.slots.reserve count).2.entries
  := by
  have hold := h.slots.imp fun _ _ (hd : Jsonnet.Akin κ w _ _) => hd.mono hle
  apply hold.append rfl
  intro i hi
  obtain hi | ⟨hlt, hdead⟩ := hnow _ hi
  · exact .inl hi
  · by_cases hsize : i < a.slots.size
    · by_cases dead : κ.dead
      · obtain ⟨k, p, -, -, hk⟩ := hdead dead
        dsimp only at hk
        omega
      · exact .inl (h.full dead i hsize)
    · have hk : i - a.slots.size < count := by
        dsimp only at hlt
        omega
      refine .inr ⟨i - a.slots.size, Slots.unfilled, Slots.unfilled, ?_, ?_, ?_, ?_⟩
      · change i = a.slots.size + _
        omega
      · rw [List.getElem?_replicate, if_pos hk]
      · rw [List.getElem?_replicate, if_pos hk]
      · exact .failed (.internal _)

/-- The numbers of the slots that a `local` expression binds. -/
theorem freshSlots_number {dead : Prop} {live : List Prop} {count k : Nat} {number : SlotId}
    (length : live.length = count) (hasSlots : dead → a.slots.size + count ≤ maxSlot + 1)
    (hk : ((List.range count).map (a.slots.reserve count).1.plus)[k]? = some number) :
  k < count ∧ number.index < a.slots.size + live.length ∧ (dead → number.index = a.slots.size + k)
  := by
  rw [List.getElem?_map, Option.map_eq_some_iff] at hk
  obtain ⟨j, hj, rfl⟩ := hk
  obtain ⟨hlt, heq⟩ := List.getElem?_eq_some_iff.mp hj
  rw [List.getElem_range] at heq
  cases heq
  rw [List.length_range] at hlt
  have hsize : a.slots.entries.size = a.slots.size := rfl
  simp only [Slots.reserve, SlotId.plus, hsize]
  refine ⟨hlt, by omega, ?_⟩
  intro h
  have := hasSlots h
  omega

/-- The state after a `local` expression. -/
theorem bindLocals_state (a : State) (c : Code) (e : Env) (bs : List Bind) :
  (a.bindLocals c e bs).2 =
    let ss := bs.map fun bind =>
      Suspension.code (.thunk bind.name) (a.bindLocals c e bs).1 (c.sibling bind.body)
    { a with
      thunks := a.thunks ++ ss.map Cell.pending
      slots := (a.slots.reserve bs.length).2.fillAll
        (((List.range bs.length).map (a.slots.reserve bs.length).1.plus).zip
          ((List.range' a.thunks.size ss.length).map fun index => .shared ⟨index⟩)) }
  := rfl

/-- The bindings of akin `local` expressions. -/
theorem bindLocals (h : a.Akin κ w b) {live inner : Name → Prop} {c c' : Code} {e e' : Env}
    {bs bs' : List Bind} (env : Jsonnet.Akin κ w (.env live e) (.env live e'))
    (binds : List.Forall₂ (Bind.Akin w.name
      (fun live id id' => κ.code w.name live (c.sibling id) (c'.sibling id')) inner) bs bs')
    (outer : ∀ n, inner n → n ∈ bs.map Bind.name ∨ live n)
    (alive : ¬ κ.dead → ∀ b ∈ bs, inner b.name)
    (hasSlots : κ.dead → (a.bindLocals c e bs).2.HasSlots) :
  ∃ w', w ≤ w' ∧ w'.name = w.name ∧ (a.bindLocals c e bs).2.Akin κ w' (b.bindLocals c' e' bs').2 ∧
    Jsonnet.Akin κ w' (.env inner (a.bindLocals c e bs).1) (.env inner (b.bindLocals c' e' bs').1)
  := by
  let ps := bs.map fun b => inner b.name
  let numbers := (List.range bs.length).map (a.slots.reserve bs.length).1.plus
  let w' := w.extend (freshThunks a.thunks.size ps) (freshSlots κ.dead a.slots.size ps)
  have hle : w ≤ w' := w.le_extend _ _
  have hps : ps.length = bs.length := List.length_map _
  have hcount := binds.length_eq
  have hnumbers : (List.range bs'.length).map (b.slots.reserve bs'.length).1.plus = numbers := by
    have hsize : b.slots.entries.size = a.slots.entries.size := h.slots.size_eq.symm
    simp only [Slots.reserve, hsize, ← hcount, numbers]
  rw [HasSlots, size_bindLocals_slots] at hasSlots
  have hget : ∀ {k : Nat} {p : Prop}, ps[k]? = some p → ∃ bind, bs[k]? = some bind ∧
      p = inner bind.name := by
    intro k p hk
    rw [List.getElem?_map, Option.map_eq_some_iff] at hk
    obtain ⟨bind, hbind, rfl⟩ := hk
    exact ⟨bind, hbind, rfl⟩
  have henv : Jsonnet.Akin κ w' (.env inner (a.bindLocals c e bs).1)
      (.env inner (b.bindLocals c' e' bs').1) := by
    have names : List.Forall₂ w'.name (bs.map Bind.name) (bs'.map Bind.name) := by
      rw [List.forall₂_map_left_iff, List.forall₂_map_right_iff]
      exact binds.imp fun _ _ hb => hb.name
    have hnew : ∀ entry ∈ (bs.map Bind.name).zip numbers, inner entry.1 → w'.slot entry.2 := by
      intro entry hentry hinner
      obtain ⟨k, hk⟩ := List.mem_iff_getElem?.mp hentry
      obtain ⟨hname, hnumber⟩ := List.getElem?_zip_eq_some.mp hk
      obtain ⟨-, hlt, hindex⟩ := freshSlots_number hps hasSlots hnumber
      refine .inr ⟨hlt, fun dead => ⟨k, inner entry.1, ?_, hinner, hindex dead⟩⟩
      rw [List.getElem?_map, Option.map_eq_some_iff] at hname ⊢
      obtain ⟨bind, hbind, heq⟩ := hname
      exact ⟨bind, hbind, congrArg inner heq⟩
    have hscope := ((Jsonnet.Akin.env_iff.mp env).1.mono hle).bindSlots names (by simp [numbers])
      hnew outer
    simp only [State.bindLocals, State.share, hnumbers]
    exact (env.mono hle).withScope hscope
  refine ⟨w', hle, rfl, ?_, henv⟩
  have kin : Partly (AkinAs κ .suspension w') ps
      (bs.map fun bind => .code (.thunk bind.name) (a.bindLocals c e bs).1 (c.sibling bind.body))
      (bs'.map fun bind => .code (.thunk bind.name) (b.bindLocals c' e' bs').1
        (c'.sibling bind.body)) := by
    apply Partly.map_of_forall₂ binds
    intro bind bind' hbind halive
    exact .code (.thunk hbind.name) henv (hbind.body halive)
  have hthunks := h.appendThunks hle kin fun _ ht => ht
  have hthunk : ∀ t, freshThunks a.thunks.size ps t → w'.thunk t := fun _ => .inr
  have hfresh := h.freshThunks_akin kin.length_left kin.length_eq hthunk
  have hfill : ∀ (k : Nat) number p, numbers[k]? = some number → ps[k]? = some p →
      w'.slot ⟨number.index⟩ → p := by
    intro k number p hk hp hlive
    obtain ⟨bind, hbind, rfl⟩ := hget hp
    by_cases dead : κ.dead
    · obtain ⟨-, -, hindex⟩ := freshSlots_number hps hasSlots hk
      obtain hlive | ⟨-, hlive⟩ := hlive
      · have hlt := h.slots.lt_size hlive
        rw [hindex dead] at hlt
        change a.slots.size + k < a.slots.size at hlt
        omega
      · obtain ⟨k', q, hq, hinner, hk'⟩ := hlive dead
        have heq : k = k' := by
          rw [hindex dead] at hk'
          omega
        cases heq
        cases hp.symm.trans hq
        exact hinner
    · exact alive dead bind (List.mem_of_getElem? hbind)
  have hslots := (h.reserve hle hps fun _ hs => hs).fillAll hfresh hfill
  rw [bindLocals_state, bindLocals_state, hnumbers, ← hcount]
  refine h.grow hle hthunks hslots ?_
  -- where nothing is dead, all slots are live
  intro dead i hi
  rw [Slots.size_fillAll, Slots.size_reserve] at hi
  exact .inr ⟨by rw [hps]; exact hi, fun h => absurd h dead⟩

end State.Akin

/-! ### Imports -/

namespace ImportCache

variable {c c' : ImportCache Deferred}

/-- Akin caches give the same answers, and stay akin. -/
theorem Akin.resolve (h : c.Akin κ w c') (importer : Importer) (directory path : String) :
  (c.resolve importer directory path).1 = (c'.resolve importer directory path).1 ∧
    (c.resolve importer directory path).2.Akin κ w (c'.resolve importer directory path).2
  := by
  rw [ImportCache.resolve, ImportCache.resolve]
  obtain ⟨he, he'⟩ | ⟨e, e', he, he', entry⟩ := optionRel_iff.mp (h (directory, path))
  · rw [he, he']
    refine ⟨rfl, ?_⟩
    intro key
    rw [Std.HashMap.getElem?_insert, Std.HashMap.getElem?_insert]
    split
    · exact .some ⟨rfl, .none⟩
    · exact h key
  · rw [he, he']
    exact ⟨entry.answer, h⟩

theorem Akin.code? (h : c.Akin κ w c') (directory path : String) :
  Option.Rel (fun d d' => Jsonnet.Akin κ w (.deferred d) (.deferred d')) (c.code? directory path)
    (c'.code? directory path)
  := by
  rw [ImportCache.code?, ImportCache.code?]
  obtain ⟨he, he'⟩ | ⟨e, e', he, he', entry⟩ := optionRel_iff.mp (h (directory, path))
  · rw [he, he']
    exact .none
  · rw [he, he']
    exact entry.code

/-- Keeping akin codes of an import. -/
theorem Akin.setCode (h : c.Akin κ w c') (directory path : String) {d d' : Deferred}
    (hd : Jsonnet.Akin κ w (.deferred d) (.deferred d')) :
  (c.setCode directory path d).Akin κ w (c'.setCode directory path d')
  := by
  rw [ImportCache.setCode, ImportCache.setCode]
  obtain ⟨he, he'⟩ | ⟨e, e', he, he', entry⟩ := optionRel_iff.mp (h (directory, path))
  · rw [he, he']
    exact h
  · rw [he, he']
    intro key
    rw [Std.HashMap.getElem?_insert, Std.HashMap.getElem?_insert]
    split
    · exact .some ⟨entry.answer, .some hd⟩
    · exact h key

end ImportCache

end Jsonnet
