import Jsonnet.Proofs.Knowing
import Jsonnet.Proofs.MakingActions
import Jsonnet.Proofs.Moments

/-!
# Lengths that are taken

The only numbers that evaluation makes of sizes without a bound are those of lengths. A
computation is modest if the standard allows every size of which it takes the length, whether or
not it comes to an end.
-/

namespace Jsonnet

/-- The size that is the length of a value: the number of characters, elements, fields that are
not hidden, or parameters. -/
def Value.size? : Value → Option Nat
  | .string s => some s.length
  | .array elements => some elements.size
  | .object o => some (o.fieldNames false).length
  | .function f => some f.arity
  | .null | .bool _ | .number _ => none

/-- Whether a task takes the length of a value of some size. -/
def Task.Measures (session : Session) (task : Task) (a : State) (size : Nat) : Prop :=
  ∃ d v b, task = .builtin (.library .length) [d] ∧ d.force.Gives session a v b ∧
    v.size? = some size

/-- A length that is taken is the number of a size. -/
theorem Task.measures_of_length {session : Session} {fuel : Nat} {arguments : List Deferred}
    {a b : State} {v : Value}
    (run : (applyBuiltin (.library .length) arguments session).resolve session
      (Task.perform session fuel) a = some (.ok v, b)) :
  ∃ size, (Task.builtin (.library .length) arguments).Measures session a size ∧
    v = .number (.ofNat size)
  := by
  rw [applyBuiltin] at run
  cases hx : applyLibrary .length arguments with
  | none =>
    rw [hx] at run
    cases run
  | some x =>
    obtain ⟨d, rfl, rfl⟩ := applyLibrary_length hx
    rw [hx] at run
    obtain ⟨u, c, forced, run⟩ := Progress.resolve_bind_ok run
    have forced := Action.run_iff.mpr ⟨fuel, forced⟩
    cases u with
    | null | bool | number => cases run
    | string | array | object | function =>
      cases run
      exact ⟨_, ⟨d, _, _, rfl, forced, rfl⟩, rfl⟩

/-- Whether a standard allows every size of which a computation takes the length. -/
def Progress.Modest (S : Standard) (session : Session) {α : Type} (p : Progress α) (a : State) :
    Prop :=
  ∀ above task s size, p.Moment session a above task s → task.Measures session s size → S.size size

/-- Whether a standard allows every size of which a task takes the length. -/
def Task.Modest (S : Standard) (session : Session) (task : Task) (a : State) : Prop :=
  (Progress.wait none task Progress.finished).Modest S session a

namespace Progress.Modest

variable {S : Standard} {session : Session} {α : Type} {a b : State}

/-- Everything is modest if any size meets the standard. -/
theorem of_lax (lax : S.Lax) (p : Progress α) (a : State) :
  p.Modest S session a
  := fun _ _ _ size _ _ => lax.size size

theorem step {operation : Operation} {next : operation.Result → Progress α}
    (h : (Progress.step operation next).Modest S session a) {r : operation.Result}
    (taken : operation.apply session a = (.ok r, b)) :
  (next r).Modest S session b
  := fun above task s size moment => h above task s size (.step taken moment)

/-- The task that a modest computation waits for is modest. -/
theorem task {frame? : Option Frame} {task : Task} {next : task.Result → Progress α}
    (h : (Progress.wait frame? task next).Modest S session a) (enters : a.enter frame? = .ok b) :
  task.Modest S session b
  := by
  intro above inner s size moment
  obtain ⟨c, enters', cases⟩ := moment.cases_wait
  cases enters'
  obtain ⟨rfl, rfl, rfl⟩ | ⟨inside, rfl, unknown, moment⟩ | ⟨_, _, _, _, moment⟩ := cases
  · exact h _ _ _ size (.asked enters)
  · exact h _ _ _ size (.inside enters unknown moment)
  · cases moment

theorem later {frame? : Option Frame} {task : Task} {next : task.Result → Progress α}
    (h : (Progress.wait frame? task next).Modest S session a) (enters : a.enter frame? = .ok b)
    {fuel : Nat} {r : task.Result} {c : State}
    (ends : task.perform session fuel b = some (.ok r, c)) :
  (next r).Modest S session (c.leave frame?)
  := fun above inner s size moment => h above inner s size (.later enters ends moment)

/-- A task that is about to be carried out in a modest computation is modest. -/
theorem moment {p : Progress α} {above : List Task} {task : Task} {s : State}
    (h : p.Modest S session a) (moment : p.Moment session a above task s) :
  task.Modest S session s
  := fun _ inner t size inside => h _ inner t size (moment.nested inside)

end Progress.Modest

namespace Task.Modest

variable {S : Standard} {session : Session} {task : Task} {a : State}

theorem size (h : task.Modest S session a) {size : Nat} (measures : task.Measures session a size) :
  S.size size
  := h _ _ _ _ (.asked rfl) measures

theorem action (h : task.Modest S session a) (unknown : task.known? session a = none) :
  (task.action a session).Modest S session (task.begin a)
  := fun _ inner s size moment => h _ inner s size (.inside rfl unknown moment)

end Task.Modest

end Jsonnet
