import Jsonnet.Proofs.Equality
import Jsonnet.Proofs.Outcomes

/-!
# Orders

What a state knows of the elements of two values decides how they are ordered. That order is
reversed if the values are exchanged, it is transitive, and equality agrees with it. What is known
stays known, and asking for it changes nothing.
-/

namespace Jsonnet

/-! ### Orders -/

/-- Two comparisons of a transitive order that do not go down, one after the other. -/
theorem compare_then {α : Type} [Ord α] [Std.TransOrd α] {x y z : α} (hxy : (compare x y).isLE)
    (hyz : (compare y z).isLE) :
  compare x z = (compare x y).then (compare y z)
  := by
  cases h : compare x y with
  | lt => exact Std.TransCmp.lt_of_lt_of_isLE h hyz
  | eq => exact Std.TransCmp.congr_left h
  | gt =>
    rw [h] at hxy
    cases hxy

theorem less_of_isLE {o : Ordering} (h : o.isLE) (hne : o ≠ .eq) :
  o = .lt
  := by
  cases o with
  | lt => rfl
  | eq => contradiction
  | gt => cases h

theorem then_less {o : Ordering} (h : o.isLE) :
  o.then .lt = .lt
  := by
  cases o with
  | gt => cases h
  | _ => rfl

/-- Numbers are ordered by their ranks. -/
theorem orderNumbers_eq {m n : Number} (hm : m.isNaN = false) (hn : n.isNaN = false) :
  orderNumbers m n = compare m.rank n.rank
  := by
  rw [orderNumbers, Number.less, Number.less, hm, hn]
  rcases lt_trichotomy m.rank n.rank with h | h | h
  · simp [h, Int.compare_eq_lt.mpr h]
  · simp [h]
  · simp [h, h.le, Int.compare_eq_gt.mpr h]

/-- Equality of numbers agrees with their order. -/
theorem Number.equal_eq_order {m n : Number} (hm : m.isNaN = false) (hn : n.isNaN = false) :
  m.equal n = (orderNumbers m n == .eq)
  := by
  rw [orderNumbers_eq hm hn, Number.equal, hm, hn, Bool.eq_iff_iff]
  simp

/-- Equality of strings agrees with their order. -/
theorem equal_eq_compare (s t : String) :
  (compare s t == .eq) = (s == t)
  := by
  rw [Bool.eq_iff_iff, beq_iff_eq, beq_iff_eq, Std.LawfulEqCmp.compare_eq_iff_eq]

/-- Whether two values are of types that can be compared with each other. -/
def Value.comparable : Value → Value → Bool
  | .number _, .number _ | .string _, .string _ | .array _, .array _ => true
  | _, _ => false

theorem Value.comparable_comm (x y : Value) :
  x.comparable y = y.comparable x
  := by cases x <;> cases y <;> rfl

/-- Values that cannot be compared with each other are an error. -/
theorem computeOrder_of_not_comparable {operator : BinaryOp} {x y : Value}
    (h : x.comparable y = false) :
  computeOrder operator x y
    = Action.raiseHere (.binaryOperands operator.symbol x.typeName y.typeName)
  := by
  cases x <;> cases y <;> first | rfl | cases h

theorem ok_of_toOption {α : Type} {outcome : Except Failure α} {r : α}
    (h : outcome.toOption = some r) :
  outcome = .ok r
  := by
  cases outcome with
  | error failure => cases h
  | ok s => exact congrArg _ (Option.some.inj h)

/-! ### What is known of an order -/

mutual

/-- How two values are ordered by what a state knows of their elements; nothing if a difference of
types is met first. -/
inductive Value.Orders (a : State) : Value → Value → Option Ordering → Prop where
  | numbers {m n : Number} (hm : m.isNaN = false) (hn : n.isNaN = false) :
    Value.Orders a (.number m) (.number n) (some (orderNumbers m n))
  | strings (s t : String) : Value.Orders a (.string s) (.string t) (some (compare s t))
  | arrays {xs ys : Array Deferred} {r : Option Ordering}
      (inside : ElementsOrder a xs.toList ys.toList r) :
    Value.Orders a (.array xs) (.array ys) r
  | apart {x y : Value} (h : x.comparable y = false) : Value.Orders a x y none

/-- How two lists of elements are ordered by what a state knows of them. -/
inductive ElementsOrder (a : State) : List Deferred → List Deferred → Option Ordering → Prop where
  | same : ElementsOrder a [] [] (some .eq)
  | shorter (y : Deferred) (ys : List Deferred) : ElementsOrder a [] (y :: ys) (some .lt)
  | longer (x : Deferred) (xs : List Deferred) : ElementsOrder a (x :: xs) [] (some .gt)
  | decided {x y : Deferred} {xs ys : List Deferred} {v w : Value} {r : Option Ordering}
      (known : x.Known a v) (known' : y.Known a w) (first : Value.Orders a v w r) (differs : r ≠ some .eq) :
    ElementsOrder a (x :: xs) (y :: ys) r
  | further {x y : Deferred} {xs ys : List Deferred} {v w : Value} {r : Option Ordering}
      (known : x.Known a v) (known' : y.Known a w) (first : Value.Orders a v w (some .eq))
      (others : ElementsOrder a xs ys r) :
    ElementsOrder a (x :: xs) (y :: ys) r

end

/-- What is known of a deferred value is one value. -/
theorem Deferred.Known.unique {a : State} {d : Deferred} {v w : Value} (h : d.Known a v)
    (h' : d.Known a w) :
  v = w
  := by
  cases d with
  | ready u => exact h.symm.trans h'
  | shared t =>
    have h : a.thunks[t.index]? = some (.ready v) := h
    have h' : a.thunks[t.index]? = some (.ready w) := h'
    rw [h] at h'
    cases h'
    rfl
  | suspended s => exact h.elim
  | failed f => exact h.elim

/-- Whether the thunks that are ready in a state are so in another one, as in all that come later.
The frames do not matter. -/
def State.KeepsReady (a b : State) : Prop :=
  ∀ ⦃i : Nat⦄ ⦃v : Value⦄, a.thunks[i]? = some (.ready v) → b.thunks[i]? = some (.ready v)

theorem State.Grows.keepsReady {session : Session} {a b : State} (h : a.Grows session b) :
  a.KeepsReady b
  := fun _ _ ready => h.ready ready

theorem State.KeepsReady.trans {a b c : State} (h : a.KeepsReady b) (h' : b.KeepsReady c) :
  a.KeepsReady c
  := fun _ _ ready => h' (h ready)

section

variable {a b : State}

/-- What is known stays known. -/
theorem Deferred.Known.stays (later : a.KeepsReady b) {d : Deferred} {v : Value} (h : d.Known a v) :
  d.Known b v
  := by
  cases d with
  | ready u => exact h
  | shared t => exact later h
  | suspended s => exact h
  | failed f => exact h

mutual

theorem Value.Orders.stays (later : a.KeepsReady b) : ∀ {x y : Value} {r : Option Ordering},
    x.Orders a y r →
  x.Orders b y r
  | _, _, _, .numbers hm hn => .numbers hm hn
  | _, _, _, .strings s t => .strings s t
  | _, _, _, .arrays inside => .arrays (inside.stays later)
  | _, _, _, .apart h => .apart h

theorem ElementsOrder.stays (later : a.KeepsReady b) :
    ∀ {xs ys : List Deferred} {r : Option Ordering}, ElementsOrder a xs ys r →
  ElementsOrder b xs ys r
  | _, _, _, .same => .same
  | _, _, _, .shorter y ys => .shorter y ys
  | _, _, _, .longer x xs => .longer x xs
  | _, _, _, .decided known known' first differs =>
    .decided (known.stays later) (known'.stays later) (first.stays later) differs
  | _, _, _, .further known known' first others =>
    .further (known.stays later) (known'.stays later) (first.stays later) (others.stays later)

end

mutual

/-- The order of two values is one. -/
theorem Value.Orders.unique : ∀ {x y : Value} {r r' : Option Ordering}, x.Orders a y r →
    x.Orders a y r' →
  r = r'
  | _, _, _, _, .numbers _ _, h' => by
    cases h' with
    | numbers _ _ => rfl
    | apart h => cases h
  | _, _, _, _, .strings _ _, h' => by
    cases h' with
    | strings _ _ => rfl
    | apart h => cases h
  | _, _, _, _, .arrays inside, h' => by
    cases h' with
    | arrays inside' => exact inside.unique inside'
    | apart h => cases h
  | _, _, _, _, .apart h, h' => by
    cases h' with
    | apart _ => rfl
    | _ => cases h

theorem ElementsOrder.unique : ∀ {xs ys : List Deferred} {r r' : Option Ordering},
    ElementsOrder a xs ys r → ElementsOrder a xs ys r' →
  r = r'
  | _, _, _, _, .same, .same => rfl
  | _, _, _, _, .shorter _ _, .shorter _ _ => rfl
  | _, _, _, _, .longer _ _, .longer _ _ => rfl
  | _, _, _, _, .decided known known' first differs, h' => by
    cases h' with
    | decided hx hy first' _ =>
      cases known.unique hx
      cases known'.unique hy
      exact first.unique first'
    | further hx hy first' _ =>
      cases known.unique hx
      cases known'.unique hy
      exact absurd (first.unique first') differs
  | _, _, _, _, .further known known' first others, h' => by
    cases h' with
    | decided hx hy first' differs =>
      cases known.unique hx
      cases known'.unique hy
      exact absurd (first.unique first').symm differs
    | further hx hy _ others' => exact others.unique others'

end

mutual

/-- The order the other way round is the reverse. -/
theorem Value.Orders.swap : ∀ {x y : Value} {r : Option Ordering}, x.Orders a y r →
  y.Orders a x (r.map Ordering.swap)
  | _, _, _, .numbers hm hn => by
    rw [Option.map_some, orderNumbers_eq hm hn, ← Std.OrientedCmp.eq_swap, ← orderNumbers_eq hn hm]
    exact .numbers hn hm
  | _, _, _, .strings s t => by
    rw [Option.map_some, ← Std.OrientedCmp.eq_swap]
    exact .strings t s
  | _, _, _, .arrays inside => .arrays inside.swap
  | x, y, _, .apart h => .apart ((y.comparable_comm x).trans h)

theorem ElementsOrder.swap : ∀ {xs ys : List Deferred} {r : Option Ordering}, ElementsOrder a xs ys r →
  ElementsOrder a ys xs (r.map Ordering.swap)
  | _, _, _, .same => .same
  | _, _, _, .shorter y ys => .longer y ys
  | _, _, _, .longer x xs => .shorter x xs
  | _, _, _, .decided known known' first differs => by
    refine .decided known' known first.swap ?_
    rintro h
    obtain ⟨o, rfl, ho⟩ := Option.map_eq_some_iff.mp h
    rw [Ordering.swap_eq_eq] at ho
    exact differs (congrArg some ho)
  | _, _, _, .further known known' first others => .further known' known first.swap others.swap

end

mutual

/-- Two orders that do not go down, one after the other. -/
theorem Value.Orders.chain : ∀ {x y : Value} {r : Option Ordering}, x.Orders a y r →
    ∀ {z : Value} {o o' : Ordering}, r = some o → y.Orders a z (some o') → o.isLE → o'.isLE →
  x.Orders a z (some (o.then o'))
  | _, _, _, .numbers hm hn => by
    rintro ⟨⟩ h' hle hle'
    cases h' with
    | numbers _ hk =>
      rw [orderNumbers_eq hm hn] at hle ⊢
      rw [orderNumbers_eq hn hk] at hle' ⊢
      rw [← compare_then hle hle', ← orderNumbers_eq hm hk]
      exact .numbers hm hk
  | _, _, _, .strings s t => by
    rintro ⟨⟩ h' hle hle'
    cases h' with
    | strings _ u =>
      rw [← compare_then hle hle']
      exact .strings s u
  | _, _, _, .arrays inside => by
    intro heq h' hle hle'
    cases h' with
    | arrays inside' => exact .arrays (inside.chain heq inside' hle hle')
  | _, _, _, .apart _ => nofun

theorem ElementsOrder.chain : ∀ {xs ys : List Deferred} {r : Option Ordering},
    ElementsOrder a xs ys r → ∀ {zs : List Deferred} {o o' : Ordering}, r = some o →
    ElementsOrder a ys zs (some o') → o.isLE → o'.isLE →
  ElementsOrder a xs zs (some (o.then o'))
  | _, _, _, .same => by
    rintro ⟨⟩ h' hle hle'
    exact h'
  | _, _, _, .shorter _ _ => by
    rintro ⟨⟩ h' hle hle'
    cases h' with
    | longer _ _ => cases hle'
    | decided _ _ _ _ => exact .shorter _ _
    | further _ _ _ _ => exact .shorter _ _
  | _, _, _, .longer _ _ => by
    rintro ⟨⟩ h' hle hle'
    cases hle
  | _, _, _, .decided hx hy first differs => by
    have goes := @Value.Orders.chain _ _ _ first
    rintro rfl h' hle hle'
    obtain rfl := less_of_isLE hle fun h => differs (congrArg some h)
    cases h' with
    | longer _ _ => cases hle'
    | decided hy' hz first' _ =>
      cases hy.unique hy'
      exact .decided hx hz (goes rfl first' rfl hle') nofun
    | further hy' hz first' _ =>
      cases hy.unique hy'
      have less := goes rfl first' rfl rfl
      exact .decided hx hz less nofun
  | _, _, _, .further hx hy first others => by
    have goes := @Value.Orders.chain _ _ _ first
    have rest := @ElementsOrder.chain _ _ _ others
    intro heq h' hle hle'
    cases h' with
    | longer _ _ => cases hle'
    | decided hy' hz first' differs =>
      cases hy.unique hy'
      obtain rfl := less_of_isLE hle' fun h => differs (congrArg some h)
      rw [then_less hle]
      exact .decided hx hz (goes rfl first' rfl rfl) nofun
    | further hy' hz first' others' =>
      cases hy.unique hy'
      exact .further hx hz (goes rfl first' rfl rfl) (rest heq others' hle hle')

end

/-- Two orders that do not go down go down nowhere together, and go up where one of them does. -/
theorem Value.Orders.trans {x y z : Value} {o o' : Ordering} (h : x.Orders a y (some o))
    (h' : y.Orders a z (some o')) (hle : o.isLE) (hle' : o'.isLE) :
  ∃ r, x.Orders a z (some r) ∧ r.isLE ∧ (o = .lt ∨ o' = .lt → r = .lt)
  := by
  refine ⟨_, h.chain rfl h' hle hle', ?_⟩
  cases o with
  | lt => exact ⟨rfl, fun _ => rfl⟩
  | eq => exact ⟨hle', fun less => less.resolve_left nofun⟩
  | gt => cases hle

end

/-! ### Asking for what is known -/

section

variable {session : Session} {a : State}

/-- What the order of two values comes to, it comes to by the comparison of values of their types. -/
theorem Value.order_of_compute {operator : BinaryOp} {x y : Value}
    {outcome : Except Failure Ordering} (h : (computeOrder operator x y).Ends session a outcome a) :
  (x.order operator y).Ends session a outcome a
  := Action.Ends.request_iff.mpr ((Task.Ends.unknown_iff rfl).mpr ⟨a, h, rfl⟩)

mutual

/-- Comparing values whose order is known comes to that order and changes nothing. -/
theorem Value.Orders.ends (operator : BinaryOp) : ∀ {x y : Value} {r : Option Ordering},
    x.Orders a y r →
  ∃ outcome, (x.order operator y).Ends session a outcome a ∧ outcome.toOption = r
  | _, _, _, .numbers _ _ => ⟨_, Value.order_of_compute (Action.Ends.pure_iff.mpr ⟨rfl, rfl⟩), rfl⟩
  | _, _, _, .strings _ _ => ⟨_, Value.order_of_compute (Action.Ends.pure_iff.mpr ⟨rfl, rfl⟩), rfl⟩
  | _, _, _, .arrays inside => by
    obtain ⟨outcome, ends, h⟩ := inside.ends operator
    exact ⟨outcome, Value.order_of_compute ends, h⟩
  | _, _, _, .apart h => by
    have ends : ∀ cause, ∃ failure,
        (Action.raiseHere cause : Action Ordering).Ends session a (.error failure) a :=
      fun cause => ⟨_, Action.Ends.iff_resolve.mpr ⟨0, rfl⟩⟩
    obtain ⟨failure, ends⟩ := ends _
    refine ⟨.error failure, Value.order_of_compute ?_, rfl⟩
    rw [computeOrder_of_not_comparable h]
    exact ends

theorem ElementsOrder.ends (operator : BinaryOp) : ∀ {xs ys : List Deferred} {r : Option Ordering},
    ElementsOrder a xs ys r →
  ∃ outcome, (orderElements operator xs ys).Ends session a outcome a ∧ outcome.toOption = r
  | _, _, _, .same => ⟨_, Action.Ends.pure_iff.mpr ⟨rfl, rfl⟩, rfl⟩
  | _, _, _, .shorter _ _ => ⟨_, Action.Ends.pure_iff.mpr ⟨rfl, rfl⟩, rfl⟩
  | _, _, _, .longer _ _ => ⟨_, Action.Ends.pure_iff.mpr ⟨rfl, rfl⟩, rfl⟩
  | _, _, _, .decided known known' first differs => by
    obtain ⟨outcome, ends, rfl⟩ := first.ends operator
    refine ⟨outcome, ?_, rfl⟩
    refine Action.Ends.bind_iff.mpr (.inr ⟨_, a, known.force, ?_⟩)
    refine Action.Ends.bind_iff.mpr (.inr ⟨_, a, known'.force, ?_⟩)
    refine Action.Ends.bind_iff.mpr ?_
    cases outcome with
    | error failure => exact .inl ⟨failure, rfl, ends⟩
    | ok o =>
      refine .inr ⟨o, a, ends, ?_⟩
      cases o with
      | eq => exact absurd rfl differs
      | _ => exact Action.Ends.pure_iff.mpr ⟨rfl, rfl⟩
  | _, _, _, .further known known' first others => by
    obtain ⟨outcome, ends, h⟩ := others.ends operator
    obtain ⟨equal, gives, heq⟩ := first.ends operator
    refine ⟨outcome, ?_, h⟩
    refine Action.Ends.bind_iff.mpr (.inr ⟨_, a, known.force, ?_⟩)
    refine Action.Ends.bind_iff.mpr (.inr ⟨_, a, known'.force, ?_⟩)
    refine Action.Ends.bind_iff.mpr (.inr ⟨.eq, a, ?_, ends⟩)
    exact ok_of_toOption heq ▸ gives

end

/-- Where the order of two values is known, comparing them gives it. -/
theorem Value.Orders.gives {x y : Value} {o : Ordering} (h : x.Orders a y (some o))
    (operator : BinaryOp) :
  (x.order operator y).Gives session a o a
  := by
  have comes : ∃ outcome, (x.order operator y).Ends session a outcome a ∧ outcome.toOption = some o :=
    h.ends operator
  obtain ⟨outcome, ends, heq⟩ := comes
  rw [ok_of_toOption heq] at ends
  exact ends

/-- Only arrays of one size have no first difference. -/
theorem ElementsOrder.length_eq {xs ys : List Deferred} (h : ElementsOrder a xs ys (some .eq)) :
  xs.length = ys.length
  := by
  induction xs generalizing ys with
  | nil =>
    cases h
    rfl
  | cons x xs ih =>
    cases h with
    | decided _ _ _ differs => exact absurd rfl differs
    | further _ _ _ others => exact congrArg (· + 1) (ih others)

mutual

/-- Values whose order is known are equal if that is equality, and different otherwise. -/
theorem Value.Orders.equal : ∀ {x y : Value} {r : Option Ordering}, x.Orders a y r →
    ∀ o : Ordering, r = some o →
  (x.equal y).Gives session a (o == .eq) a
  | _, _, _, .numbers hm hn => by
    rintro _ ⟨⟩
    rw [← Number.equal_eq_order hm hn]
    exact Value.equal_of_compute (.pure _)
  | _, _, _, .strings s t => by
    rintro _ ⟨⟩
    rw [equal_eq_compare]
    exact Value.equal_of_compute (.pure _)
  | .array xs, .array ys, _, .arrays inside => by
    have goes := @ElementsOrder.equal _ _ _ inside
    rintro o rfl
    apply Value.equal_of_compute
    rw [computeEqual]
    by_cases hsize : xs.size = ys.size
    · rw [if_neg (by simp [hsize])]
      exact goes o rfl (by simpa using hsize)
    · have differs : o ≠ .eq := by
        rintro rfl
        exact hsize (by simpa using inside.length_eq)
      rw [if_pos (by simp [hsize]), beq_eq_false_iff_ne.mpr differs]
      exact .pure false
  | _, _, _, .apart _ => by
    rintro _ ⟨⟩

theorem ElementsOrder.equal : ∀ {xs ys : List Deferred} {r : Option Ordering},
    ElementsOrder a xs ys r → ∀ o : Ordering, r = some o → xs.length = ys.length →
  (elementsEqual xs ys).Gives session a (o == .eq) a
  | _, _, _, .same => by
    rintro _ ⟨⟩ -
    exact .pure true
  | _, _, _, .shorter _ _ => by
    rintro _ - ⟨⟩
  | _, _, _, .longer _ _ => by
    rintro _ - ⟨⟩
  | _, _, _, .decided known known' first differs => by
    have goes := @Value.Orders.equal _ _ _ first
    rintro o rfl -
    have unequal : (o == .eq) = false := beq_eq_false_iff_ne.mpr fun h => differs (congrArg some h)
    have gives := goes o rfl
    rw [unequal] at gives ⊢
    exact known.force.bind (known'.force.bind (gives.bind (.pure false)))
  | _, _, _, .further known known' first others => by
    have goes := @Value.Orders.equal _ _ _ first
    have rest := @ElementsOrder.equal _ _ _ others
    intro o heq length
    have others := rest o heq (Nat.succ.inj length)
    exact known.force.bind (known'.force.bind ((goes .eq rfl).bind others))

end

end

end Jsonnet
