import Mathlib.Data.List.Basic
import Mathlib.Data.List.Nodup
import Mathlib.Tactic.Common
import Jsonnet.Value.Object

/-!
# Fields that are written out

The fields that an object is written out with are those that some literal defines and that
are not hidden: of the definitions that say whether a field is hidden, the right-most one
decides. Each of these fields is listed once.
-/

namespace Jsonnet

/-- The visibilities of the definitions of a field in a literal, in the order in which they are
written. -/
def Leaf.definitions (l : Leaf) (name : Name) : List Visibility :=
  (l.fields.filter fun field => field.1 = name).map fun field => field.2.visibility

namespace Object

/-- The visibilities of the definitions of a field, the most derived first. -/
def definitions (o : Object) (name : Name) : List Visibility :=
  o.leaves.flatMap fun (l, _) => (l.definitions name).reverse

/-- Whether a field is written out: it is defined, and the right-most definition that does not
inherit the visibility does not hide it. -/
structure Shows (o : Object) (name : Name) : Prop where
  defined : o.definitions name ≠ []
  shown : (o.definitions name).find? (· ≠ .inherit) ≠ some .hidden

/-! ### The table of visibilities -/

/-- The visibility of a field that is defined once more. -/
def refined (old : Option Visibility) (new : Visibility) : Option Visibility :=
  match old with
  | some old => some (old.refine new)
  | none => some new

section

variable (name other : Name) (v : Visibility) (seen : List (Name × Visibility))

theorem lookup_refineVisibility_self :
  (refineVisibility name v seen).lookup name = refined (seen.lookup name) v
  := by
  induction seen with
  | nil => simp [refineVisibility, refined]
  | cons first rest ih =>
    obtain ⟨n, w⟩ := first
    rw [refineVisibility]
    split
    case isTrue h => simp [h, refined]
    case isFalse h =>
      have hne : (name == n) = false := beq_false_of_ne (Ne.symm h)
      simp only [List.lookup_cons, hne, ih]

theorem lookup_refineVisibility_of_ne (h : other ≠ name) :
  (refineVisibility name v seen).lookup other = seen.lookup other
  := by
  have hne : (other == name) = false := beq_false_of_ne h
  induction seen with
  | nil => simp only [refineVisibility, List.lookup_cons, hne]
  | cons first rest ih =>
    obtain ⟨n, w⟩ := first
    rw [refineVisibility]
    split
    case isTrue hn => simp only [List.lookup_cons, hn, hne]
    case isFalse hn => simp only [List.lookup_cons, ih]

theorem keys_refineVisibility :
  (refineVisibility name v seen).map Prod.fst
    = if name ∈ seen.map Prod.fst then seen.map Prod.fst else seen.map Prod.fst ++ [name]
  := by
  induction seen with
  | nil => rfl
  | cons first rest ih =>
    obtain ⟨n, w⟩ := first
    rw [refineVisibility]
    split
    case isTrue h => simp [h]
    case isFalse h =>
      rw [List.map_cons, ih]
      split <;> simp_all [Ne.symm h]

theorem nodup_refineVisibility (h : (seen.map Prod.fst).Nodup) :
  ((refineVisibility name v seen).map Prod.fst).Nodup
  := by
  rw [keys_refineVisibility]
  split
  case isTrue => exact h
  case isFalse hname =>
    rw [(List.perm_append_singleton name _).nodup_iff]
    exact List.nodup_cons.mpr ⟨hname, h⟩

end

/-- The visibilities after the definitions of a literal. -/
theorem lookup_visibilityOver_leaf (l : Leaf) (name : Name) (seen : List (Name × Visibility)) :
  ((Object.leaf l).visibilityOver seen).lookup name
    = (l.definitions name).foldl refined (seen.lookup name)
  := by
  rw [visibilityOver, Leaf.definitions]
  generalize l.fields = fields
  induction fields generalizing seen with
  | nil => rfl
  | cons field fields ih =>
    obtain ⟨n, field⟩ := field
    rw [List.foldl_cons, ih]
    by_cases h : n = name
    · subst h
      rw [lookup_refineVisibility_self]
      simp
    · rw [lookup_refineVisibility_of_ne _ _ _ _ (Ne.symm h)]
      simp [h]

theorem lookup_visibilityOver (name : Name) (skipped : Nat) (seen : List (Name × Visibility)) :
    (o : Object) →
  (o.visibilityOver seen).lookup name
    = ((o.leavesFrom skipped).flatMap fun (l, _) => (l.definitions name).reverse).foldr
        (fun v old => refined old v) (seen.lookup name)
  | .leaf l => by
    rw [lookup_visibilityOver_leaf, leavesFrom, List.flatMap_singleton, List.foldr_reverse]
  | .join _ _ _ left right => by
    rw [visibilityOver, leavesFrom, List.flatMap_append, List.foldr_append,
      lookup_visibilityOver name skipped _ right,
      lookup_visibilityOver name (addLeaves skipped right.size) seen left]

theorem nodup_visibilityOver (seen : List (Name × Visibility)) (h : (seen.map Prod.fst).Nodup) :
    (o : Object) →
  ((o.visibilityOver seen).map Prod.fst).Nodup
  | .leaf l => by
    rw [visibilityOver]
    generalize l.fields = fields
    induction fields generalizing seen with
    | nil => exact h
    | cons field fields ih => exact ih _ (nodup_refineVisibility _ _ seen h)
  | .join _ _ _ left right => nodup_visibilityOver _ (nodup_visibilityOver seen h left) right

/-- The definition that decides on the visibility of a field. -/
theorem foldr_refined (definitions : List Visibility) :
  definitions.foldr (fun v old => refined old v) none
    = if definitions = [] then none
      else some ((definitions.find? (· ≠ .inherit)).getD .inherit)
  := by
  induction definitions with
  | nil => rfl
  | cons v definitions ih =>
    rw [List.foldr_cons, ih]
    cases v <;> split <;> simp_all [refined, Visibility.refine]

/-- The visibility of a field of an object. -/
theorem lookup_visibility (o : Object) (name : Name) :
  o.visibility.lookup name = if o.definitions name = [] then none
    else some (((o.definitions name).find? (· ≠ .inherit)).getD .inherit)
  := (lookup_visibilityOver name 0 [] o).trans (foldr_refined _)

/-! ### The fields that are listed -/

variable (o : Object) (includeHidden : Bool)

theorem nodup_fieldNames :
  (o.fieldNames includeHidden).Nodup
  := by
  have h := nodup_visibilityOver [] List.nodup_nil o
  exact h.sublist (List.filter_sublist.map _)

/-- In a table that lists each name once, a name is listed with what is found for it. -/
theorem mem_iff_lookup {β : Type} {table : List (Name × β)} (h : (table.map Prod.fst).Nodup)
    (name : Name) (v : β) :
  (name, v) ∈ table ↔ table.lookup name = some v
  := by
  constructor
  · intro hmem
    obtain ⟨before, after, rfl⟩ := List.append_of_mem hmem
    rw [List.map_append, List.map_cons, List.nodup_append] at h
    refine List.lookup_eq_some_iff.mpr ⟨before, after, rfl, ?_⟩
    intro entry hentry
    have hne := h.2.2 entry.1 (List.mem_map_of_mem hentry) name List.mem_cons_self
    simpa using Ne.symm hne
  · intro hlookup
    obtain ⟨before, after, rfl, -⟩ := List.lookup_eq_some_iff.mp hlookup
    simp

/-- In another order a table says the same. -/
theorem lookup_eq_of_perm {β : Type} {table other : List (Name × β)} (h : (table.map Prod.fst).Nodup)
    (perm : table.Perm other) (name : Name) :
  table.lookup name = other.lookup name
  := by
  ext v
  rw [← mem_iff_lookup h, ← mem_iff_lookup ((perm.map Prod.fst).nodup_iff.mp h), perm.mem_iff]

/-- A literal that defines its fields once has one definition of a field at most. -/
theorem definitions_of_once {l : Leaf} (once : (l.fields.map Prod.fst).Nodup) (name : Name) :
  l.definitions name = ((l.field? name).map fun field => field.visibility).toList
  := by
  rw [Leaf.definitions, Leaf.field?]
  generalize l.fields = fields at once
  induction fields with
  | nil => rfl
  | cons first rest ih =>
    obtain ⟨n, field⟩ := first
    rw [List.map_cons, List.nodup_cons] at once
    obtain ⟨notRest, once⟩ := once
    by_cases h : n = name
    · subst h
      have others : rest.filter (fun field => field.1 = n) = [] := by
        rw [List.filter_eq_nil_iff]
        rintro other hother heq
        exact notRest (List.mem_map.mpr ⟨other, hother, of_decide_eq_true heq⟩)
      simp [others]
    · have hne : (name == n) = false := beq_false_of_ne (Ne.symm h)
      rw [List.filter_cons, if_neg (by simpa using h), ih once, List.lookup_cons, hne]

/-- The fields that are listed are those that have a visibility that is listed. -/
theorem mem_fieldNames_iff_lookup (name : Name) :
  name ∈ o.fieldNames includeHidden
    ↔ ∃ v, (includeHidden = true ∨ v ≠ .hidden) ∧ o.visibility.lookup name = some v
  := by
  simp only [fieldNames, List.mem_map, List.mem_filter, Bool.or_eq_true, bne_iff_ne, Prod.exists,
    exists_and_right, exists_eq_right, ← mem_iff_lookup (nodup_visibilityOver [] List.nodup_nil o),
    visibility]
  simp only [and_comm]

/-- The fields that are not hidden are those that are written out. -/
theorem mem_fieldNames (name : Name) :
  name ∈ o.fieldNames false ↔ o.Shows name
  := by
  rw [mem_fieldNames_iff_lookup, lookup_visibility]
  constructor
  · rintro ⟨v, hv, h⟩
    split at h
    case isTrue => cases h
    case isFalse hdefined =>
      refine ⟨hdefined, ?_⟩
      intro hhidden
      rw [hhidden] at h
      cases h
      simp at hv
  · rintro ⟨hdefined, hshown⟩
    rw [if_neg hdefined]
    refine ⟨_, .inr ?_, rfl⟩
    cases hfind : (o.definitions name).find? (· ≠ .inherit) with
    | none => simp
    | some v =>
      rintro rfl
      exact hshown hfind

end Object

end Jsonnet
