import Jsonnet.Proofs.Lookup

/-!
# More literals than can be counted

An object that is added to itself again and again soon has more literals than its size can count.
The size then stays at the greatest count, and so do the depths of the literals that are too far to
the left. A search for a field still makes progress: the search that goes on behind a hit never ends
to the right of it, and it ends at the same literal only where the depth is the greatest count.
-/

namespace Jsonnet

namespace Object

/-- The position, from the right, of the literal at which a search ends. It is where the search
ends, not what the search reports: that is the position only as far as it is counted. -/
def landing (name : Name) (minDepth : Nat) : Object → Option Nat
  | .leaf l => if minDepth = 0 && (l.field? name).isSome then some 0 else none
  | .join _ _ _ left right =>
    match if minDepth < right.size then right.landing name minDepth else none with
    | some position => some position
    | none =>
      (left.landing name (minDepth - right.size)).map fun position =>
        position + right.literals.length

theorem landing_join (name : Name) (minDepth : Nat) (id : ObjectId) (size : Nat)
    (hasAsserts : Bool) (left right : Object) :
  (Object.join id size hasAsserts left right).landing name minDepth
    = (if minDepth < right.size then right.landing name minDepth else none).or
      ((left.landing name (minDepth - right.size)).map fun position =>
        position + right.literals.length)
  := by
  rw [landing]
  split
  case h_1 found => rw [found, Option.some_or]
  case h_2 missed => rw [missed, Option.none_or]

namespace Composed

variable {o : Object} (h : o.Composed) (name : Name) {minDepth position : Nat}

include h

/-- A search ends at a literal that defines the field. -/
theorem landing_defines (found : o.landing name minDepth = some position) :
  ∃ l, o.literals[position]? = some l ∧ (l.field? name).isSome
  := by
  induction h generalizing minDepth position with
  | leaf l =>
    rw [landing] at found
    split at found
    case isTrue defined =>
      cases found
      exact ⟨l, rfl, (Bool.and_eq_true_iff.mp defined).2⟩
    case isFalse => cases found
  | combine id _ _ ihleft ihright =>
    rw [Object.combine, landing_join, Option.or_eq_some_iff, Option.map_eq_some_iff] at found
    rw [Object.combine, literals]
    obtain right | ⟨-, place, left, rfl⟩ := found
    · split at right
      case isTrue =>
        obtain ⟨l, here, defined⟩ := ihright right
        rw [List.getElem?_append_left (List.getElem?_eq_some_iff.mp here).choose]
        exact ⟨l, here, defined⟩
      case isFalse => cases right
    · rw [List.getElem?_append_right (Nat.le_add_left _ _), Nat.add_sub_cancel]
      exact ihleft left

/-- The search in the tree reports the literal at which it ends, with the position as far as it is
counted. -/
theorem findFrom_eq_landing (skipped : Nat) :
  o.findFrom name minDepth (min skipped maxLeaves)
    = (o.landing name minDepth).bind fun position =>
      o.literals[position]?.map fun l => (l, min (skipped + position) maxLeaves)
  := by
  induction h generalizing minDepth skipped with
  | leaf l =>
    rw [findFrom, landing]
    split
    · rfl
    · rfl
  | @combine id left right hleft hright ihleft ihright =>
    have depth : addLeaves (min skipped maxLeaves) right.size
        = min (skipped + right.literals.length) maxLeaves := by
      rw [hright.size_eq, addLeaves]
      omega
    have behind : left.findFrom name (minDepth - right.size)
          (addLeaves (min skipped maxLeaves) right.size)
        = ((left.landing name (minDepth - right.size)).map (· + right.literals.length)).bind
          fun position => (right.literals ++ left.literals)[position]?.map fun l =>
            (l, min (skipped + position) maxLeaves) := by
      rw [depth, ihleft, Option.bind_map]
      congr 1
      funext position
      rw [Function.comp_apply, List.getElem?_append_right (Nat.le_add_left _ _),
        Nat.add_sub_cancel, Nat.add_comm position, Nat.add_assoc]
    rw [Object.combine, findFrom_join, landing_join, literals, behind]
    split
    case isFalse => rw [Option.none_or, Option.none_or]
    case isTrue =>
      rw [ihright]
      cases found : right.landing name minDepth with
      | none => rw [Option.bind_none, Option.none_or, Option.none_or]
      | some position =>
        obtain ⟨l, here, -⟩ := hright.landing_defines name found
        rw [Option.bind_some, Option.some_or, Option.bind_some,
          List.getElem?_append_left (List.getElem?_eq_some_iff.mp here).choose, here,
          Option.map_some, Option.some_or]

/-- Below the greatest count, a search ends at the first literal from some position on that defines
the field. -/
theorem landing_eq (small : minDepth < maxLeaves) :
  o.landing name minDepth
    = ((o.literals.drop minDepth).findIdx? fun l => (l.field? name).isSome).map (· + minDepth)
  := by
  induction h generalizing minDepth with
  | leaf l =>
    cases minDepth with
    | zero => cases hl : (l.field? name).isSome <;> simp [landing, literals, hl]
    | succ minDepth => simp [landing, literals]
  | @combine id left right hleft hright ihleft ihright =>
    have size := hright.size_eq
    rw [Object.combine, landing_join, literals, List.drop_append, List.findIdx?_append,
      Option.map_or, Option.map_map, ihleft (by omega), Option.map_map]
    congr 1
    · split
      case isTrue => exact ihright small
      case isFalse behind =>
        rw [List.drop_eq_nil_of_le (by omega)]
        rfl
    · have skipped : minDepth - right.size = minDepth - right.literals.length := by omega
      rw [skipped]
      congr 1
      funext position
      simp only [Function.comp_apply, List.length_drop]
      omega

/-- From the greatest count on, all the literals that can be counted are left out. -/
theorem le_landing_maxLeaves (found : o.landing name maxLeaves = some position) :
  maxLeaves ≤ position
  := by
  cases h with
  | leaf l =>
    rw [landing] at found
    cases found
  | @combine id left right hleft hright =>
    have size := hright.size_eq
    have positive := hright.size_pos
    have counted : 0 < maxLeaves := by decide
    rw [Object.combine, landing_join, if_neg (by omega), Option.none_or,
      Option.map_eq_some_iff] at found
    obtain ⟨place, found, rfl⟩ := found
    rw [hleft.landing_eq name (by omega), Option.map_eq_some_iff] at found
    obtain ⟨index, -, rfl⟩ := found
    omega

/-- A search never ends to the right of where it starts. -/
theorem le_landing (few : minDepth ≤ maxLeaves) (found : o.landing name minDepth = some position) :
  minDepth ≤ position
  := by
  obtain rfl | small := few.eq_or_lt
  · exact h.le_landing_maxLeaves name found
  · rw [h.landing_eq name small, Option.map_eq_some_iff] at found
    obtain ⟨index, -, rfl⟩ := found
    exact Nat.le_add_left _ _

/-- A literal that defines the field stops every search that starts to the right of it. -/
theorem landing_le_of_landing {other start : Nat} (small : minDepth < maxLeaves)
    (found : o.landing name minDepth = some position) (hit : o.landing name start = some other)
    (left : minDepth ≤ other) :
  position ≤ other
  := by
  rw [h.landing_eq name small, Option.map_eq_some_iff] at found
  obtain ⟨index, first, rfl⟩ := found
  obtain ⟨_, -, earlier⟩ := List.findIdx?_eq_some_iff_getElem.mp first
  obtain ⟨l, here, defined⟩ := h.landing_defines name hit
  by_contra before
  obtain ⟨inside, rfl⟩ := List.getElem?_eq_some_iff.mp here
  apply earlier (other - minDepth) (by omega)
  rw [List.getElem_drop]
  have same : minDepth + (other - minDepth) = other := by omega
  simp only [same, defined]

/-- Behind a hit, a search never ends to the right of it, and ends there again only at the greatest
count. -/
theorem landing_progress {next : Nat} (few : minDepth ≤ maxLeaves)
    (found : o.landing name minDepth = some position)
    (again : o.landing name (addLeaves (min position maxLeaves) 1) = some next) :
  position ≤ next ∧ (position < maxLeaves → position < next)
  := by
  have start : addLeaves (min position maxLeaves) 1 ≤ maxLeaves := Nat.min_le_right _ _
  have further := h.le_landing name start again
  obtain counted | far := Nat.lt_or_ge position maxLeaves
  · have behind : addLeaves (min position maxLeaves) 1 = position + 1 := by
      rw [addLeaves]
      omega
    rw [behind] at further
    exact ⟨by omega, fun _ => further⟩
  · have top : addLeaves (min position maxLeaves) 1 = maxLeaves := by
      rw [addLeaves]
      omega
    rw [top] at again further
    refine ⟨?_, fun counted => absurd counted (Nat.not_lt.mpr far)⟩
    obtain rfl | small := few.eq_or_lt
    · exact (Option.some.inj (found.symm.trans again)).le
    · exact h.landing_le_of_landing name small found again (few.trans further)

/-- What a search reports is the literal at which it ends, with its position as far as that is
counted. -/
theorem find?_eq_landing (minDepth : Nat) :
  o.find? minDepth name
    = (o.landing name minDepth).bind fun position =>
      o.literals[position]?.map fun l => (l, min position maxLeaves)
  := by
  have reported : o.findFrom name minDepth (min 0 maxLeaves) = _ := h.findFrom_eq_landing name 0
  simp only [Nat.zero_add, Nat.zero_min] at reported
  exact reported

omit name in
/-- The size of an object is the number of its literals, as far as it is counted, and a search
behind a hit makes progress. What a search reports is the literal at which it ends, with its
position from the right, as far as that is counted. The search that goes on behind the reported
depth never ends to the right of that literal, and ends there again only at the greatest count. -/
theorem search_progresses :
  o.size = min o.literals.length maxLeaves ∧
    ∀ name minDepth, o.find? minDepth name
        = ((o.landing name minDepth).bind fun position =>
          o.literals[position]?.map fun l => (l, min position maxLeaves)) ∧
      ∀ l depth, minDepth ≤ maxLeaves → o.find? minDepth name = some (l, depth) →
        ∃ position, o.landing name minDepth = some position ∧ o.literals[position]? = some l ∧
          depth = min position maxLeaves ∧
          ∀ next, o.landing name (addLeaves depth 1) = some next →
            position ≤ next ∧ (depth < maxLeaves → position < next)
  := by
  refine ⟨h.size_eq, fun name minDepth => ⟨h.find?_eq_landing name minDepth, ?_⟩⟩
  intro l depth few hit
  rw [h.find?_eq_landing, Option.bind_eq_some_iff] at hit
  obtain ⟨position, found, hit⟩ := hit
  obtain ⟨l', here, same⟩ := Option.map_eq_some_iff.mp hit
  cases same
  refine ⟨position, found, here, rfl, fun next again => ?_⟩
  obtain ⟨never, progress⟩ := h.landing_progress name few found again
  exact ⟨never, fun counted => progress (by omega)⟩

end Composed

/-! ### Doubling -/

/-- A literal added to itself again and again: every step doubles the number of literals. -/
def doubled (l : Leaf) : Nat → Object
  | 0 => .leaf l
  | n + 1 => .combine ⟨n + 1⟩ (doubled l n) (doubled l n)

section

variable (l : Leaf) (n : Nat)

theorem doubled_composed :
  (doubled l n).Composed
  := by
  induction n with
  | zero => exact .leaf l
  | succ n ih => exact .combine _ ih ih

theorem literals_doubled :
  (doubled l n).literals = List.replicate (2 ^ n) l
  := by
  induction n with
  | zero => rfl
  | succ n ih =>
    rw [doubled, Object.combine, literals, ih, List.replicate_append_replicate, Nat.pow_succ,
      Nat.mul_two]

/-- The search behind all literals but one ends at the left-most one. -/
theorem landing_doubled {name : Name} (defined : (l.field? name).isSome) (few : n ≤ 32) :
  (doubled l n).landing name (2 ^ n - 1) = some (2 ^ n - 1)
  := by
  induction n with
  | zero => simp [doubled, landing, defined]
  | succ n ih =>
    have positive : 0 < 2 ^ n := Nat.two_pow_pos n
    have small : 2 ^ n ≤ 2 ^ 31 := Nat.pow_le_pow_right (by decide) (by omega)
    have size : (doubled l n).size = 2 ^ n := by
      have top : maxLeaves = 2 ^ 32 - 1 := rfl
      rw [(doubled_composed l n).size_eq, literals_doubled, List.length_replicate]
      omega
    have rest : 2 ^ (n + 1) - 1 - 2 ^ n = 2 ^ n - 1 := by omega
    rw [doubled, Object.combine, landing_join, size, if_neg (by omega), Option.none_or, rest,
      ih (by omega), literals_doubled, List.length_replicate, Option.map_some, Option.some_inj]
    omega

end

/-- A literal with one field. -/
def singleField : Leaf := ⟨⟨0⟩, .empty, [(⟨0⟩, ⟨.inherit, .ready .null⟩)], []⟩

/-- After 32 steps there are more literals than the size counts. The left-most of them is found at
the greatest count of literals, and found again behind itself. -/
theorem doubled_saturates :
  let o := doubled singleField 32
  o.Composed ∧ o.literals.length = 2 ^ 32 ∧ o.size ≠ o.literals.length ∧
    ∃ depth, o.find? maxLeaves ⟨0⟩ = some (singleField, depth) ∧
      o.landing ⟨0⟩ maxLeaves = some (2 ^ 32 - 1) ∧
      o.landing ⟨0⟩ (addLeaves depth 1) = some (2 ^ 32 - 1)
  := by
  intro o
  have composed : o.Composed := doubled_composed singleField 32
  have literals : o.literals = List.replicate (2 ^ 32) singleField :=
    literals_doubled singleField 32
  have length : o.literals.length = 2 ^ 32 := by rw [literals, List.length_replicate]
  have landing : o.landing ⟨0⟩ maxLeaves = some (2 ^ 32 - 1) :=
    landing_doubled singleField 32 (by decide) le_rfl
  have top : maxLeaves = 2 ^ 32 - 1 := rfl
  refine ⟨composed, length, ?_, maxLeaves, ?_, landing, landing⟩
  · rw [composed.size_eq, length, top]
    decide
  · rw [composed.find?_eq_landing, landing, Option.bind_some, literals,
      List.getElem?_replicate_of_lt (by decide), Option.map_some, top, min_self]

/-- The same field twice: behind the right one the left one is found. -/
theorem Composed.search_progresses_of_pair :
  let o := doubled singleField 1
  o.Composed ∧ o.find? 0 ⟨0⟩ = some (singleField, 0) ∧
    ∃ position next, o.landing ⟨0⟩ 0 = some position ∧ o.landing ⟨0⟩ (addLeaves 0 1) = some next ∧
      position < next
  := by
  intro o
  have composed : o.Composed := doubled_composed singleField 1
  obtain ⟨-, search⟩ := composed.search_progresses
  obtain ⟨-, progress⟩ := search ⟨0⟩ 0
  obtain ⟨position, found, -, -, further⟩ := progress singleField 0 (by decide) rfl
  exact ⟨composed, rfl, position, 1, found, rfl, (further 1 rfl).2 (by decide)⟩

end Object

end Jsonnet
