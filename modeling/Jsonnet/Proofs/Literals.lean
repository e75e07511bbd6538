import Jsonnet.Proofs.Outcomes

/-!
# Object literals whose fields are named by string literals

The names of such fields are known without computing anything: as long as they are names of the
interner and differ from each other, all that their evaluation changes is the count of expressions.
-/

namespace Jsonnet

/-! ### The names of the fields -/

/-- Whether the definition of a field is named by a string literal, and which field it gives. -/
structure FieldDef.Labels (code : Code) (d : FieldDef) (f : Name × Field) : Prop where
  name : (code.sibling d.name).node = .string f.1
  field : f.2 = ⟨d.visibility, .code (code.sibling d.body) d.extendsSuper⟩

/-- A string of the interner has the name that it is looked up with. -/
theorem Interner.Gives.tryIntern_lookup {names : Interner} {name : Name} (h : names.Gives name) :
  names.tryIntern (names.lookup name) = .ok (name, names)
  := by
  obtain ⟨s, hs⟩ := h
  have hlookup : names.lookup name = s := by rw [lookup_eq, hs.string, Option.getD_some]
  rw [hlookup]
  exact hs.tryIntern_eq

/-- The state after some expressions that do nothing else. -/
def State.counting (a : State) : Nat → State
  | 0 => a
  | n + 1 => ({ a with counters := a.counters.count .expression } : State).counting n

theorem State.counting_eq (a : State) (n : Nat) :
  ∃ counters, a.counting n = { a with counters }
  := by
  induction n generalizing a with
  | zero => exact ⟨_, rfl⟩
  | succ n ih => exact ih _

/-! ### Evaluating them -/

section

variable {session : Session} {code : Code} {env : Env} {a : State}

/-- A string literal evaluates to its string. -/
theorem Task.perform_string {name : Name} (h : code.node = .string name) (fuel : Nat) :
  (Task.evaluate code env).perform session (fuel + 1) a
    = some (.ok (.string (a.names.lookup name)), a.counting 1)
  := by
  rw [perform_unknown rfl, action, evaluateCode, h]
  rfl

/-- The names of fields that are string literals are evaluated one after the other, and nothing
comes of it but the fields. -/
theorem resolve_literalFields {α : Type} {definitions : List FieldDef} {fields : List (Name × Field)}
    (labels : List.Forall₂ (FieldDef.Labels code) definitions fields)
    (given : ∀ f ∈ fields, a.names.Gives f.1) (done : List (Name × Field))
    (distinct : ((done ++ fields).map Prod.fst).Nodup) (other : Session) {fuel : Nat}
    (enough : definitions ≠ [] → 0 < fuel) (next : List (Name × Field) → Progress α) :
  ((literalFields code env done definitions other).bind next).resolve session
      (Task.perform session fuel) a
    = (next (done.reverse ++ fields)).resolve session (Task.perform session fuel)
      (a.counting fields.length)
  := by
  induction labels generalizing done a with
  | nil =>
    rw [List.append_nil]
    rfl
  | @cons d f definitions fields label labels ih =>
    obtain ⟨name, field⟩ := f
    obtain ⟨label, heq⟩ := label
    dsimp only at label heq
    obtain ⟨fuel, rfl⟩ := Nat.exists_eq_succ_of_ne_zero (enough (List.cons_ne_nil _ _)).ne'
    have fresh : done.any (·.1 == name) = false := by
      rw [List.any_eq_false]
      intro g hg same
      rw [List.map_append] at distinct
      refine List.disjoint_of_nodup_append distinct (List.mem_map_of_mem hg) ?_
      rw [beq_iff_eq.mp same]
      exact List.mem_cons_self
    have distinct : ((((name, field) :: done) ++ fields).map Prod.fst).Nodup :=
      ((List.perm_middle.map _).nodup_iff).mp distinct
    have rest := ih (a := a.counting 1) (fun f hf => given f (List.mem_cons_of_mem _ hf)) _ distinct
      fun _ => Nat.succ_pos fuel
    rw [List.reverse_cons, List.append_assoc] at rest
    have evaluated : (((code.sibling d.name).evaluate env) other).resolve session
        (Task.perform session (fuel + 1)) a = some (.ok (.string (a.names.lookup name)), a.counting 1) :=
      (Progress.resolve_request_eq _ _ a).trans (Task.perform_string label fuel)
    have named : (Action.intern (a.names.lookup name) other).resolve session
        (Task.perform session (fuel + 1)) (a.counting 1) = some (.ok name, a.counting 1) := by
      have interned : (a.counting 1).names.tryIntern (a.names.lookup name) = .ok (name, a.names) :=
        (given _ List.mem_cons_self).tryIntern_lookup
      simp only [Action.intern, Action.take, Progress.resolve, Operation.apply, interned]
      rfl
    rw [literalFields, Action.bind_apply, Progress.bind_assoc, Progress.resolve_bind evaluated]
    dsimp only
    rw [Action.bind_apply, Progress.bind_assoc, Progress.resolve_bind named, fresh,
      if_neg Bool.false_ne_true, ← heq]
    exact rest

/-- If there are fields, their names are not evaluated without fuel. -/
theorem fuel_of_literalFields {α : Type} {definitions : List FieldDef} {done : List (Name × Field)}
    {other : Session} {fuel : Nat} {next : List (Name × Field) → Progress α} {x : Outcome α}
    (h : ((literalFields code env done definitions other).bind next).resolve session
      (Task.perform session fuel) a = some x) (hne : definitions ≠ []) :
  0 < fuel
  := by
  cases fuel with
  | succ fuel => exact Nat.succ_pos fuel
  | zero =>
    cases definitions with
    | nil => exact absurd rfl hne
    | cons d definitions => cases h

/-- An object literal whose fields are named by string literals evaluates to its object. -/
theorem Task.Gives.evaluate_object {asserts : Slice NodeId} {definitions : Slice FieldDef}
    (hnode : code.node = .object asserts definitions) {fields : List (Name × Field)}
    (labels : List.Forall₂ (FieldDef.Labels code) (code.arena.readFields definitions) fields)
    (given : ∀ f ∈ fields, a.names.Gives f.1) (distinct : (fields.map Prod.fst).Nodup) :
  (Task.evaluate code env).Gives session a
    (.object (.leaf ⟨⟨a.checks.size⟩, env.scope, fields,
      (code.arena.readList asserts).map fun id => .code (code.sibling id) false⟩))
    { a.counting (fields.length + 1) with checks := a.checks.push .notChecked }
  := by
  have given : ∀ f ∈ fields, (a.counting 1).names.Gives f.1 := given
  have named : (literalFields code env [] (code.arena.readFields definitions)).Gives session
      (a.counting 1) fields (a.counting (fields.length + 1)) := by
    refine Action.Gives.iff_resolve.mpr ⟨1, ?_⟩
    rw [← Progress.bind_finished_right (literalFields code env [] _ session)]
    exact resolve_literalFields labels given [] distinct session (fun _ => Nat.one_pos) .finished
  obtain ⟨counters, heq⟩ := a.counting_eq (fields.length + 1)
  have same : (a.counting (fields.length + 1)).checks = a.checks := by rw [heq]
  refine of_action rfl ?_
  rw [action, evaluateCode, hnode]
  refine .bind (.take rfl) (.bind named (.bind (.take ?_) (.pure _)))
  rw [Operation.apply, State.newObject, same]

end

end Jsonnet
