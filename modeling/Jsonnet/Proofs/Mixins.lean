import Jsonnet.Proofs.Twins

/-!
# Objects of three parts

An object that is put together of three parts has the same literals in the same order
whichever two parts are put together first. Its parts see the whole object as `self` and
can hand it on, but nothing tells the two ways apart: two runs in which one object stands
for the other, and everything else for itself, are the same.
-/

namespace Jsonnet

/-! ### Counting literals -/

/-- Objects that are put together of literals, as the objects of a run are. -/
inductive Object.Composed : Object → Prop where
  | leaf (l : Leaf) : Composed (.leaf l)
  | combine (id : ObjectId) {left right : Object} (hleft : left.Composed)
      (hright : right.Composed) : Composed (.combine id left right)

namespace Object.Composed

variable {o : Object} (h : o.Composed)

include h

/-- There are at least as many literals as the size says, which is bounded. -/
theorem size_le (skipped : Nat) :
  o.size ≤ (o.leavesFrom skipped).length
  := by
  induction h generalizing skipped with
  | leaf l => exact le_rfl
  | @combine id left right hleft hright ihleft ihright =>
    rw [Object.combine, leavesFrom, List.length_append]
    apply (min_le_left (left.size + right.size) maxLeaves).trans
    rw [Nat.add_comm]
    exact Nat.add_le_add (ihright skipped) (ihleft _)

theorem size_pos :
  0 < o.size
  := by
  induction h with
  | leaf l => exact Nat.one_pos
  | combine id hleft hright ihleft ihright =>
    exact lt_min (Nat.add_pos_left ihleft _) (by decide)

end Object.Composed

/-! ### What stands for itself -/

theorem optionRel_refl {α : Type} {r : α → α → Prop} (hr : ∀ x, r x x) (x : Option α) :
  Option.Rel r x x
  := by
  cases x with
  | none => exact .none
  | some x => exact .some (hr x)

/-- Everything that has a number stands for itself. -/
structure Pairing.Reflexive (w : Pairing .exactly) : Prop where
  name : ∀ n, w.name n
  thunk : ∀ t, w.thunk t t
  slot : ∀ i, w.slot i i
  self : ∀ o, w.self o o

/-- Exact terms allow every failure, and every code. -/
theorem Terms.exactly_allows (failure : Failure) :
  exactly.Allows failure
  := by
  rw [Allows.eq_def]
  split <;> first | exact id | trivial

theorem Code.fits_exactly (code : Code) (P : Name → Prop) (inObject : Prop) :
  code.Fits .exactly P inObject
  := ⟨False.elim, False.elim⟩

section

variable {w : Pairing .exactly}

theorem Pairing.Reflexive.named (h : w.Reflexive) (code : Code) :
  code.Named w.name
  := code.named_of_forall h.name

mutual

theorem Value.alike_refl (h : w.Reflexive) : (v : Value) →
  Alike w (.value v) (.value v)
  | .null => .null
  | .bool b => .bool b
  | .number x => .number x
  | .string s => .string s
  | .array ⟨elements⟩ => .array (alike_refl_deferreds h elements)
  | .function f => .function (f.alike_refl h)
  | .object o => .object (h.self o)

theorem Function.alike_refl (h : w.Reflexive) : (f : Function) →
  Alike w (.function f) (.function f)
  | .closure env _ body =>
    .closure (env.alike_refl h) (fun n _ => h.name n) (h.named body) (body.fits_exactly _ _)
  | .builtin b => .builtin b

theorem Deferred.alike_refl (h : w.Reflexive) : (d : Deferred) →
  Alike w (.deferred d) (.deferred d)
  | .ready v => .ready (v.alike_refl h)
  | .suspended s => .suspended (s.alike_refl h)
  | .shared t => .shared (h.thunk t)
  | .failed failure => .failed (.refl (Terms.exactly_allows failure))

theorem alike_refl_deferreds (h : w.Reflexive) : (ds : List Deferred) →
  Alike w (.deferreds ds) (.deferreds ds)
  | [] => .nil
  | d :: ds => .cons (d.alike_refl h) (alike_refl_deferreds h ds)

theorem Suspension.alike_refl (h : w.Reflexive) : (s : Suspension) →
  Alike w (.suspension s) (.suspension s)
  | .code _ env body =>
    .code Terms.agrees_rfl (env.alike_refl h) (h.named body) (body.fits_exactly _ _)
  | .call f ds _ => .call Terms.agrees_rfl (f.alike_refl h) (alike_refl_deferreds h ds)

theorem Binding.alike_refl (h : w.Reflexive) : (b : Binding) →
  Alike w (.binding b) (.binding b)
  | .value d => .bound (d.alike_refl h)
  | .slot i => .slot (h.slot i)

theorem alike_refl_bindings (h : w.Reflexive) : (bs : List (Name × Binding)) →
  Alike w (.bindings bs) (.bindings bs)
  | [] => .unbound
  | (_, b) :: bs => .bind (b.alike_refl h) (alike_refl_bindings h bs)

theorem Scope.alike_refl (h : w.Reflexive) : (s : Scope) →
  Alike w (.scope s) (.scope s)
  | .empty => .empty
  | .layer bs outer => .layer (alike_refl_bindings h bs) (outer.alike_refl h)

theorem Env.alike_refl (h : w.Reflexive) : (e : Env) →
  Alike w (.env e) (.env e)
  | ⟨scope, none, _⟩ => .outside (scope.alike_refl h)
  | ⟨scope, some o, _⟩ => .inside (scope.alike_refl h) (h.self o)

end

variable (h : w.Reflexive)

include h

theorem Member.fits_refl (member : Member) (scope : Scope) :
  member.Fits w scope
  := by
  cases member with
  | code body extendsSuper => exact .code (h.named body) (body.fits_exactly _ _) extendsSuper
  | ready v => exact .ready (v.alike_refl h)

theorem Object.alike_refl : (o : Object) →
  o.Alike w o
  | .leaf l => .leaf
    { scope := l.scope.alike_refl h
      fields := rfl
      asserts := rfl
      name := fun field _ => h.name field.1
      member := fun field _ => field.2.member.fits_refl h l.scope
      assertion := fun member _ => member.fits_refl h l.scope }
  | .join _ _ _ left right => .join (absurd trivial) left.alike_refl right.alike_refl

theorem Cell.alike_refl (c : Cell) :
  c.Alike w c
  := by
  cases c with
  | pending s => exact .pending (s.alike_refl h)
  | ready v => exact .ready (v.alike_refl h)

/-- A state is the twin of itself. -/
theorem State.twin_refl (a : State) :
  a.Twin w a
  where
  names := rfl
  counters := rfl
  checks := rfl
  thunks := List.forall₂_same.mpr fun c _ => c.alike_refl h
  slots := List.forall₂_same.mpr fun d _ => d.alike_refl h
  fields _ := optionRel_refl (fun v => v.alike_refl h) _
  imports _ := optionRel_refl (fun _ => ⟨rfl, optionRel_refl (fun d => d.alike_refl h) _⟩) _
  externals _ := optionRel_refl (fun d => d.alike_refl h) _

end

/-! ### One object for another -/

namespace Mixins

/-- Everything stands for itself, and the object `p` for the object `o`. -/
def pairing (o p : Object) : Pairing .exactly where
  name _ := True
  thunk t t' := t = t'
  slot i j := i = j
  object o' p' := o' = p' ∨ o' = o ∧ p' = p
  self o' p' := o' = p' ∨ o' = o ∧ p' = p

theorem reflexive_pairing (o p : Object) :
  (pairing o p).Reflexive
  := ⟨fun _ => trivial, fun _ => rfl, fun _ => rfl, fun _ => .inl rfl⟩

/-- Objects with the same number that are alike where one stands for the other. -/
structure Twinned (o p : Object) : Prop where
  id : o.id = p.id
  alike : o.Alike (pairing o p) p

/-- The world in which one object stands for the other. -/
def world {o p : Object} (h : Twinned o p) : LevelWorld .exactly where
  val := {
    toPairing := pairing o p
    object_of_self := fun h => h
    alike := by
      rintro o' p' (rfl | ⟨rfl, rfl⟩)
      · exact o'.alike_refl (reflexive_pairing o p)
      · exact h.alike }
  property := {
    name := fun _ _ => trivial
    thunk := fun h => h
    slot := fun h => h
    object := by
      rintro o' p' (rfl | ⟨rfl, rfl⟩)
      · exact ⟨rfl, .inl rfl⟩
      · exact ⟨h.id, .inr ⟨rfl, rfl⟩⟩ }

/-- What is observed of writing out an object: the text or the failure, and how often each kind
of step was taken. -/
def Shows (session : Session) (layout : Layout) (state : State) (o : Object)
    (y : Except Failure String × Counters) : Prop :=
  ∃ fuel x, ((Value.object o).manifest layout).run session fuel state = some x ∧
    (x.1, x.2.counters) = y

/-- Objects that are twinned are written out in the same way. -/
theorem Twinned.shows {o p : Object} (h : Twinned o p) {session : Session} {layout : Layout}
    {state : State} {y : Except Failure String × Counters} (hy : Shows session layout state o y) :
  Shows session layout state p y
  := by
  obtain ⟨_, x, hx, rfl⟩ := hy
  obtain ⟨fuel, hx⟩ := Action.run_iff.mp ⟨_, hx⟩
  have hC : (Twins.comparison .exactly session session state.names).Lawful :=
    Twins.lawful_comparison trivial (fun h => h) (.refl session) rfl False.elim False.elim
  have inv : Twins.Inv session state.names (world h) state state :=
    ⟨state.twin_refl (reflexive_pairing o p), False.elim, False.elim, False.elim, .inl rfl⟩
  have related : Action.Related session session Same (world h).val
      ((Value.object o).manifest layout) ((Value.object p).manifest layout) :=
    manifest_related layout (.object (.inr ⟨rfl, rfl⟩))
  obtain ⟨z, hz, hends⟩ := Twins.runs trivial hC inv rfl related hx fun h => h.elim
  obtain ⟨heq, w', -, inv'⟩ := Twins.ends_same trivial hends
  obtain ⟨fuel, hz⟩ := Action.run_iff.mpr ⟨fuel, hz⟩
  exact ⟨fuel, z, hz, by rw [heq, inv'.twin.counters]⟩

/-! ### The two ways -/

section

variable {a b c : Object} (ha : a.Composed) (hb : b.Composed) (hc : c.Composed)
  (total : a.leaves.length + b.leaves.length + c.leaves.length < 2 ^ 32) (i j : ObjectId)

include ha hb hc total

theorem total_size :
  a.size + b.size + c.size ≤ maxLeaves
  := by
  have hmax : maxLeaves = 2 ^ 32 - 1 := rfl
  have := ha.size_le 0
  have := hb.size_le 0
  have := hc.size_le 0
  simp only [Object.leaves] at total
  omega

theorem twinned_regroup :
  Twinned (.combine i (.combine j a b) c) (.combine i a (.combine j b c))
  where
  id := rfl
  alike := by
    have refl := reflexive_pairing (.combine i (.combine j a b) c) (.combine i a (.combine j b c))
    exact .regroup trivial (a.alike_refl refl) (b.alike_refl refl) (c.alike_refl refl) hb.size_pos
      (total_size ha hb hc total)

theorem twinned_ungroup :
  Twinned (.combine i a (.combine j b c)) (.combine i (.combine j a b) c)
  where
  id := rfl
  alike := by
    have refl := reflexive_pairing (.combine i a (.combine j b c)) (.combine i (.combine j a b) c)
    exact .ungroup trivial (a.alike_refl refl) (b.alike_refl refl) (c.alike_refl refl) hb.size_pos
      (total_size ha hb hc total)

end

open Jsonnet.Action in
/-- An object of three parts is written out in the same way whichever two parts are put
together first: with the same text or the same failure, in the same number of steps. -/
theorem manifest_combine_assoc (session : Session) (layout : Layout) (state : State)
    {a b c : Object} (ha : a.Composed) (hb : b.Composed) (hc : c.Composed)
    (total : a.leaves.length + b.leaves.length + c.leaves.length < 2 ^ 32)
    (y : Except Failure String × Counters) :
  (∃ fuel x, (do
      let left ← combine a b
      let object ← combine left c
      (Value.object object).manifest layout).run session fuel state = some x ∧
      (x.1, x.2.counters) = y)
    ↔ ∃ fuel x, (do
      let right ← combine b c
      let object ← combine a right
      (Value.object object).manifest layout).run session fuel state = some x ∧
      (x.1, x.2.counters) = y
  := by
  constructor
  · intro h
    exact (twinned_regroup ha hb hc total _ _).shows h
  · intro h
    exact (twinned_ungroup ha hb hc total _ _).shows h

open Jsonnet.Action in
/-- Three literals of which the middle one has an assertion that never holds. -/
theorem manifest_combine_assoc_of_failing :
  let plain : Object := .leaf ⟨⟨0⟩, .empty, [], []⟩
  let failing : Object := .leaf ⟨⟨0⟩, .empty, [], [.ready (.bool false)]⟩
  plain.Composed ∧ failing.Composed ∧
    plain.leaves.length + failing.leaves.length + plain.leaves.length < 2 ^ 32 ∧
    ∃ trace counters fuel x, (do
      let right ← combine failing plain
      let object ← combine plain right
      (Value.object object).manifest .singleLine).run (Setup.bare.start .onlyEmpty).1 fuel
        (.new .onlyEmpty 5) = some x ∧
      (x.1, x.2.counters) = (.error (.runtime .assertionFailed trace), counters)
  := by
  intro plain failing
  have total : plain.leaves.length + failing.leaves.length + plain.leaves.length < 2 ^ 32 := by
    decide
  refine ⟨.leaf _, .leaf _, total, ?_⟩
  have assoc := manifest_combine_assoc (Setup.bare.start .onlyEmpty).1 .singleLine
    (.new .onlyEmpty 5) (.leaf _) (.leaf _) (.leaf _) total
  exact ⟨_, _, (assoc _).mp ⟨9, _, rfl, rfl⟩⟩

end Mixins

end Jsonnet
