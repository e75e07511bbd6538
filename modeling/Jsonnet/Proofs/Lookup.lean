import Mathlib.Data.List.Find
import Jsonnet.Proofs.Mixins

/-!
# Looking up fields

A field is looked up in the tree of an object, and the sizes that the tree keeps say which
parts a search can leave out. Whatever the shape of the tree, the search finds what a scan of
the row of literals from the right finds, as long as the literals can be counted.
-/

namespace Jsonnet

/-- The literals of an object, the most derived first. -/
def Object.literals : Object → List Leaf
  | .leaf l => [l]
  | .join _ _ _ left right => right.literals ++ left.literals

namespace Object.Composed

variable {o : Object} (h : o.Composed)

include h

/-- The size of an object is the number of its literals, as far as it is counted. -/
theorem size_eq :
  o.size = min o.literals.length maxLeaves
  := by
  induction h with
  | leaf _ => rfl
  | combine id _ _ left right =>
    rw [Object.combine, size, literals, left, right, List.length_append, addLeaves]
    omega

/-- The depth of a literal is its position, as far as it is counted. -/
theorem leavesFrom_eq (skipped : Nat) :
  o.leavesFrom (min skipped maxLeaves)
    = (o.literals.zipIdx skipped).map fun (l, position) => (l, min position maxLeaves)
  := by
  induction h generalizing skipped with
  | leaf _ => rfl
  | @combine id l r _ right ihleft ihright =>
    have depth : addLeaves (min skipped maxLeaves) r.size
        = min (skipped + r.literals.length) maxLeaves := by
      rw [right.size_eq, addLeaves]
      omega
    rw [Object.combine, leavesFrom, literals, List.zipIdx_append, List.map_append, ihright, depth,
      ihleft]

/-- An object knows whether some literal has assertions. -/
theorem hasAsserts_eq :
  o.hasAsserts = o.literals.any fun l => !l.asserts.isEmpty
  := by
  induction h with
  | leaf _ => simp [hasAsserts, literals]
  | combine id _ _ left right =>
    rw [Object.combine, hasAsserts, literals, List.any_append, left, right, Bool.or_comm]

end Object.Composed

/-! ### Literals that can be counted -/

/-- Searching behind the first members of a row is searching from a position on. -/
theorem find?_drop_zipIdx {α : Type} (p : α → Bool) (xs : List α) (start n : Nat) :
  ((xs.zipIdx start).drop n).find? (fun (x, _) => p x)
    = (xs.zipIdx start).find? fun (x, position) => start + n ≤ position && p x
  := by
  induction xs generalizing start n with
  | nil => rw [List.zipIdx_nil, List.drop_nil, List.find?_nil, List.find?_nil]
  | cons x xs ih =>
    cases n with
    | zero =>
      rw [List.drop_zero]
      apply List.find?_congr
      rintro ⟨y, position⟩ hy
      have := List.le_snd_of_mem_zipIdx hy
      simpa using fun _ => this
    | succ n =>
      have before : ¬ start + (n + 1) ≤ start := by omega
      rw [List.zipIdx_cons, List.drop_succ_cons, ih, List.find?_cons]
      simp only [before, decide_false, Bool.false_and, Nat.add_assoc, Nat.add_comm 1]

namespace Object.Composed

section

variable {o : Object} (h : o.Composed)

include h

/-- A search in the tree is a search in the row of literals behind the first ones: the sizes
that it compares with are exact, since all literals can be counted. -/
theorem findFrom_eq (name : Name) {skipped : Nat}
    (few : skipped + o.literals.length ≤ maxLeaves) (minDepth : Nat) :
  o.findFrom name minDepth skipped
    = ((o.literals.zipIdx skipped).drop minDepth).find? fun (l, _) => (l.field? name).isSome
  := by
  induction h generalizing skipped minDepth with
  | leaf l =>
    cases minDepth with
    | zero => cases hl : (l.field? name).isSome <;> simp [findFrom, literals, hl]
    | succ minDepth => simp [findFrom, literals]
  | @combine id left right _ hright ihleft ihright =>
    rw [Object.combine, literals, List.length_append] at few
    have size : right.size = right.literals.length := by
      rw [hright.size_eq]
      omega
    have depth : addLeaves skipped right.size = skipped + right.literals.length := by
      rw [size, addLeaves]
      omega
    rw [Object.combine, findFrom_join, literals, List.zipIdx_append, List.drop_append,
      List.find?_append, List.length_zipIdx, depth, size, ihleft (by omega)]
    congr 1
    split
    case isTrue => exact ihright (by omega) minDepth
    case isFalse behind =>
      rw [List.drop_eq_nil_of_le (by rw [List.length_zipIdx]; omega)]
      rfl

/-- The leaves of an object are its literals, with the positions as depths. -/
theorem leaves_eq (few : o.literals.length ≤ maxLeaves) :
  o.leaves = o.literals.zipIdx
  := by
  have counted : ∀ x ∈ o.literals.zipIdx, (x.1, min x.2 maxLeaves) = x := by
    rintro ⟨l, position⟩ hl
    have inside := List.snd_lt_of_mem_zipIdx hl
    rw [min_eq_left (by omega)]
  exact (h.leavesFrom_eq 0).trans ((List.map_congr_left counted).trans (List.map_id' _))

end

/-- What an object says about its literals is so, and looking up a field in the tree of an
object is scanning the row of its literals. -/
theorem lookup_eq_scan {o : Object} (h : o.Composed) (few : o.literals.length < 2 ^ 32) :
  o.leaves = o.literals.zipIdx ∧ o.size = o.literals.length ∧
    (o.hasAsserts = true ↔ ∃ l ∈ o.literals, l.asserts ≠ []) ∧
    ∀ minDepth name, o.find? minDepth name = o.literals.zipIdx.find? fun (l, position) =>
      minDepth ≤ position && (l.field? name).isSome
  := by
  have few : o.literals.length ≤ maxLeaves := Nat.le_sub_one_of_lt few
  refine ⟨h.leaves_eq few, ?_, ?_, ?_⟩
  · rw [h.size_eq, min_eq_left few]
  · rw [h.hasAsserts_eq, List.any_eq_true]
    simp only [Bool.not_eq_true', List.isEmpty_eq_false_iff]
  · intro minDepth name
    have scan := find?_drop_zipIdx (fun l => (l.field? name).isSome) o.literals 0 minDepth
    simp only [Nat.zero_add] at scan
    exact (h.findFrom_eq name (by omega) minDepth).trans scan

/-- A field of two literals, with a third one without it between them: the depth of what is
found behind the first literal is 2. -/
theorem lookup_eq_scan_between :
  let field : Field := ⟨.inherit, .ready .null⟩
  let name : Name := ⟨0⟩
  let outer : Leaf := ⟨⟨0⟩, .empty, [(name, field)], []⟩
  let middle : Leaf := ⟨⟨1⟩, .empty, [], [.ready (.bool true)]⟩
  let o : Object := .combine ⟨4⟩ (.leaf outer) (.combine ⟨3⟩ (.leaf middle) (.leaf outer))
  o.Composed ∧ o.literals.length < 2 ^ 32 ∧ o.hasAsserts = true ∧
    o.find? 1 name = some (outer, 2)
  := by
  intro field name outer middle o
  have composed : o.Composed := .combine _ (.leaf _) (.combine _ (.leaf _) (.leaf _))
  have few : o.literals.length < 2 ^ 32 := by decide
  obtain ⟨-, -, asserts, find⟩ := composed.lookup_eq_scan few
  refine ⟨composed, few, asserts.mpr ⟨middle, ?_, ?_⟩, (find 1 name).trans rfl⟩
  · exact List.mem_append_left _ (List.mem_append_right _ List.mem_cons_self)
  · exact List.cons_ne_nil _ _

end Object.Composed

end Jsonnet
