import Jsonnet.Proofs.Orders

/-!
# Comparison is a total order

Values that can be compared at all are ordered totally, in agreement with equality, whenever they
are compared: what a comparison has forced stays known, and whatever is asked of the same values
later on is decided by it.
-/

namespace Jsonnet

/-! ### Comparing -/

/-- The states that a session comes to by forcing elements of values, one after the other, and the
values that have come of it by then. -/
inductive Session.Forces (session : Session) (a : State) (values : List Value) :
    State → List Value → Prop where
  | start : Forces session a values a values
  | element {b c : State} {known : List Value} {elements : Array Deferred} {d : Deferred} {v : Value}
      (before : Forces session a values b known) (mem : .array elements ∈ known)
      (inside : d ∈ elements.toList) (gives : d.force.Gives session b v c) :
    Forces session a values c (v :: known)

/-- Whether forcing elements leads to a state in which some values and maybe further ones are
known. -/
def Session.Leaves (session : Session) (a : State) (values known : List Value) (c : State) : Prop :=
  ∃ more, known ⊆ more ∧ session.Forces a values c more

/-- Whether values are free of NaN and the elements of their arrays, at any depth and in whatever
order, force without error. -/
structure Session.Tame (session : Session) (a : State) (values : List Value) : Prop where
  numbers : ∀ {b known}, session.Forces a values b known → ∀ n : Number, .number n ∈ known →
    n.isNaN = false
  elements : ∀ {b known}, session.Forces a values b known → ∀ elements : Array Deferred,
    .array elements ∈ known → ∀ d ∈ elements.toList, ∀ failure c,
    ¬ d.force.Ends session b (.error failure) c

/-- The values that come of forcing elements are genuine. -/
theorem Session.Vouches.forces {session : Session} {a b : State} {values known : List Value}
    (h : session.Vouches a values) (forces : session.Forces a values b known) :
  session.Vouches b known
  := by
  induction forces with
  | start => exact h
  | element before mem inside gives ih =>
    obtain ⟨made, genuine, hvalues⟩ := ih
    cases hvalues _ mem with
    | array _ elements =>
      obtain ⟨fuel, run⟩ := gives
      obtain ⟨last, hle, hb, result, -⟩ :=
        (force_makes (proper_any.mpr (elements _ inside))).run genuine run
      refine ⟨last, hb, ?_⟩
      intro u hu
      obtain rfl | hu := List.mem_cons.mp hu
      · exact proper_any.mp (result _ rfl)
      · exact (hvalues u hu).mono hle

section

variable {session : Session} (sharing : session.sharing = true) {a : State} {values : List Value}
  (vouches : session.Vouches a values) (tame : session.Tame a values) {b c : State}
  {known : List Value}

include sharing vouches tame

/-- An element that has been forced is known. -/
theorem Session.Forces.forced (h : session.Forces a values b known) {elements : Array Deferred}
    (mem : .array elements ∈ known) {d : Deferred} (inside : d ∈ elements.toList)
    {outcome : Except Failure Value} (ends : d.force.Ends session b outcome c) :
  ∃ v, outcome = .ok v ∧ d.Known c v ∧ session.Forces a values c (v :: known)
  := by
  cases outcome with
  | error failure => exact absurd ends (tame.elements h elements mem d inside failure c)
  | ok v =>
    obtain ⟨made, -, hvalues⟩ := vouches.forces h
    cases hvalues _ mem with
    | array memoised _ =>
      exact ⟨v, rfl, Deferred.known_of_force sharing (memoised d inside) ends,
        .element h mem inside ends⟩

/-- Two elements that have been forced are known. -/
theorem Session.Forces.pair (h : session.Forces a values b known) {xs ys : Array Deferred}
    (hxs : .array xs ∈ known) (hys : .array ys ∈ known) {x y : Deferred} (hx : x ∈ xs.toList)
    (hy : y ∈ ys.toList) {α : Type} {next : Value → Value → Action α} {fuel : Nat} {result : Outcome α}
    (run : ((do next (← x.force) (← y.force)) session).resolve session (Task.perform session fuel) b
      = some result) :
  ∃ v w b', x.Known b' v ∧ y.Known b' w ∧ session.Forces a values b' (w :: v :: known) ∧
    (next v w session).resolve session (Task.perform session fuel) b' = some result
  := by
  obtain ⟨outcome, c⟩ := result
  obtain ⟨failure, rfl, first⟩ | ⟨v, b₁, first, run⟩ := Progress.resolve_bind_cases run
  · obtain ⟨v, heq, -⟩ :=
      h.forced sharing vouches tame hxs hx (Action.Ends.iff_resolve.mpr ⟨fuel, first⟩)
    cases heq
  obtain ⟨_, ⟨⟩, known₁, h₁⟩ :=
    h.forced sharing vouches tame hxs hx (Action.Ends.iff_resolve.mpr ⟨fuel, first⟩)
  have hys := List.mem_cons_of_mem v hys
  obtain ⟨failure, rfl, second⟩ | ⟨w, b₂, second, run⟩ := Progress.resolve_bind_cases run
  · obtain ⟨w, heq, -⟩ :=
      h₁.forced sharing vouches tame hys hy (Action.Ends.iff_resolve.mpr ⟨fuel, second⟩)
    cases heq
  obtain ⟨_, ⟨⟩, known₂, h₂⟩ :=
    h₁.forced sharing vouches tame hys hy (Action.Ends.iff_resolve.mpr ⟨fuel, second⟩)
  have grows := Progress.grows Task.grows second
  exact ⟨v, w, b₂, known₁.stays grows.keepsReady, known₂, h₂, run⟩

/-- What a comparison of elements comes to is the order that is known afterwards. -/
theorem orderElements_orders {fuel : Nat}
    (orders : ∀ {b c known x y operator outcome}, session.Forces a values b known → x ∈ known →
      y ∈ known → (Task.order operator x y).perform session fuel b = some (outcome, c) →
      x.Orders c y outcome.toOption ∧ session.Leaves a values known c)
    {operator : BinaryOp} {as bs : Array Deferred} {xs ys : List Deferred}
    (h : session.Forces a values b known) (has : .array as ∈ known) (hbs : .array bs ∈ known)
    (hxs : xs ⊆ as.toList) (hys : ys ⊆ bs.toList) {outcome : Except Failure Ordering}
    (run : (orderElements operator xs ys session).resolve session (Task.perform session fuel) b
      = some (outcome, c)) :
  ElementsOrder c xs ys outcome.toOption ∧ session.Leaves a values known c
  := by
  induction xs generalizing ys b known with
  | nil =>
    cases ys with
    | nil =>
      cases run
      exact ⟨.same, known, List.Subset.refl _, h⟩
    | cons y ys =>
      cases run
      exact ⟨.shorter y ys, known, List.Subset.refl _, h⟩
  | cons x xs ih =>
    cases ys with
    | nil =>
      cases run
      exact ⟨.longer x xs, known, List.Subset.refl _, h⟩
    | cons y ys =>
      obtain ⟨hx, hxs⟩ := List.cons_subset.mp hxs
      obtain ⟨hy, hys⟩ := List.cons_subset.mp hys
      obtain ⟨v, w, b₁, hv, hw, h₁, run⟩ := h.pair sharing vouches tame has hbs hx hy run
      have hvw : ∀ u ∈ known, u ∈ w :: v :: known := fun u hu =>
        List.mem_cons_of_mem w (List.mem_cons_of_mem v hu)
      -- the order of the first elements, and what else is known then
      have inside : ∀ {first : Except Failure Ordering} {c : State},
          (v.order operator w session).resolve session (Task.perform session fuel) b₁
            = some (first, c) →
          v.Orders c w first.toOption ∧ x.Known c v ∧ y.Known c w ∧
            ∃ more, known ⊆ more ∧ session.Forces a values c more := by
        intro first c run
        have grows := Progress.grows Task.grows run
        obtain ⟨order, more, hle, reached⟩ := orders h₁ (List.mem_cons_of_mem w List.mem_cons_self)
          List.mem_cons_self ((Progress.resolve_request_eq _ _ _).symm.trans run)
        exact ⟨order, hv.stays grows.keepsReady, hw.stays grows.keepsReady, more, fun u hu => hle (hvw u hu),
          reached⟩
      obtain ⟨failure, rfl, first⟩ | ⟨o, b₂, first, run⟩ := Progress.resolve_bind_cases run
      · obtain ⟨order, known₁, known₂, leaves⟩ := inside first
        exact ⟨.decided known₁ known₂ order nofun, leaves⟩
      · obtain ⟨order, known₁, known₂, more, hle, h₂⟩ := inside first
        cases o with
        | eq =>
          have grows := Progress.grows Task.grows run
          obtain ⟨others, last, hle', h₃⟩ := ih h₂ (hle has) (hle hbs) hxs hys run
          exact ⟨.further (known₁.stays grows.keepsReady) (known₂.stays grows.keepsReady)
            (order.stays grows.keepsReady) others, last, fun u hu => hle' (hle hu), h₃⟩
        | lt | gt =>
          cases run
          exact ⟨.decided known₁ known₂ order nofun, more, hle, h₂⟩

/-- What a comparison comes to is the order that is known afterwards. -/
theorem Task.order_orders {fuel : Nat} {operator : BinaryOp} {x y : Value}
    {outcome : Except Failure Ordering} (h : session.Forces a values b known) (hx : x ∈ known)
    (hy : y ∈ known) (run : (Task.order operator x y).perform session fuel b = some (outcome, c)) :
  x.Orders c y outcome.toOption ∧ session.Leaves a values known c
  := by
  induction fuel generalizing b c known x y operator outcome with
  | zero => cases run
  | succ fuel ih =>
    have here : session.Leaves a values known b := ⟨known, List.Subset.refl _, h⟩
    rw [Task.perform_unknown rfl] at run
    obtain ⟨⟨_, _⟩, ends, heq⟩ := Option.map_eq_some_iff.mp run
    cases heq
    by_cases comparable : x.comparable y = true
    · cases x with
      | number m =>
        cases y with
        | number n =>
          cases ends
          exact ⟨.numbers (tame.numbers h m hx) (tame.numbers h n hy), here⟩
        | _ => cases comparable
      | string s =>
        cases y with
        | string t =>
          cases ends
          exact ⟨.strings s t, here⟩
        | _ => cases comparable
      | array xs =>
        cases y with
        | array ys =>
          obtain ⟨inside, leaves⟩ := orderElements_orders sharing vouches tame ih h hx hy
            (List.Subset.refl _) (List.Subset.refl _) ends
          exact ⟨.arrays inside, leaves⟩
        | _ => cases comparable
      | _ => cases comparable
    · rw [Bool.not_eq_true] at comparable
      rw [Task.action, computeOrder_of_not_comparable comparable] at ends
      cases ends
      exact ⟨.apart comparable, here⟩

end

/-! ### Answers -/

/-- What an action on values has come to by the time a session is in some state. The values were
genuine and tame when it was carried out, and what was ready afterwards still is. -/
inductive Session.Answered {α : Type} (session : Session) (t : State) (values : List Value)
    (action : Action α) (outcome : Except Failure α) : Prop where
  | intro {a b : State} (vouches : session.Vouches a values) (tame : session.Tame a values)
      (ends : action.Ends session a outcome b) (later : b.KeepsReady t)

/-- Whether an action on values gives some result, whenever it is carried out: in a state it does and
changes nothing, and before it came to nothing else. -/
structure Session.Settles {α : Type} (session : Session) (t : State) (values : List Value)
    (action : Action α) (r : α) : Prop where
  gives : action.Gives session t r t
  before : ∀ outcome, session.Answered t values action outcome → outcome = .ok r

section

variable {session : Session} {t : State} {x y : Value} {o : Ordering}

/-- What has been said about the result of an action is said about a function of it. -/
theorem Session.Settles.map {α β : Type} {values : List Value} {action : Action α} {r : α}
    (h : session.Settles t values action r) (f : α → β) :
  session.Settles t values (do return f (← action)) (f r)
  where
  gives := h.gives.bind (.pure (f r))
  before outcome answered := by
    obtain ⟨vouches, tame, ends, later⟩ := answered
    obtain ⟨failure, -, first⟩ | ⟨s, b, first, last⟩ := Action.Ends.bind_iff.mp ends
    · cases h.before _ ⟨vouches, tame, first, later⟩
    · obtain ⟨rfl, rfl⟩ := Action.Ends.pure_iff.mp last
      cases h.before _ ⟨vouches, tame, first, later⟩
      rfl

variable (sharing : session.sharing = true)

include sharing

/-- What a comparison has come to is the order that is known. -/
theorem Session.Answered.orders {operator : BinaryOp} {outcome : Except Failure Ordering}
    (h : session.Answered t [x, y] (x.order operator y) outcome) :
  x.Orders t y outcome.toOption
  := by
  obtain ⟨vouches, tame, ends, later⟩ := h
  obtain ⟨fuel, run⟩ := Task.ends_iff_perform.mp (Action.Ends.request_iff.mp ends)
  obtain ⟨order, -⟩ := Task.order_orders sharing vouches tame .start List.mem_cons_self
    (List.mem_cons_of_mem x List.mem_cons_self) run
  exact order.stays later

end

end Jsonnet
