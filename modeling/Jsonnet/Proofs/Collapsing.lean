import Mathlib.Data.List.Induction
import Mathlib.Data.String.Basic
import Mathlib.Tactic.Common
import Jsonnet.Json.Document

/-!
# Collapsed documents

A document is collapsed by ordering the fields of every object by their keys and leaving only the
last one of those with one key. It then nests no deeper, and collapsing it again changes nothing.
-/

namespace Jsonnet.Document

/-! ### Ordered fields -/

/-- Whether fields are ordered by their keys, no key appearing twice. -/
def OrderedKeys (fields : List (String × Document)) : Prop :=
  fields.Pairwise fun field other => field.1 < other.1

theorem mem_of_mem_insertField {key : String} {value : Document}
    {fields : List (String × Document)} {field : String × Document}
    (h : field ∈ insertField key value fields) :
  field = (key, value) ∨ field ∈ fields
  := by
  induction fields with
  | nil => simpa [insertField] using h
  | cons old rest ih =>
    rw [insertField] at h
    split at h
    case isTrue => exact List.mem_cons.mp h
    case isFalse =>
      split at h
      case isTrue => exact (List.mem_cons.mp h).imp_right (List.mem_cons_of_mem old)
      case isFalse =>
        obtain rfl | h := List.mem_cons.mp h
        · exact .inr List.mem_cons_self
        · exact (ih h).imp_right (List.mem_cons_of_mem _)

theorem OrderedKeys.insertField {fields : List (String × Document)} (h : OrderedKeys fields)
    (key : String) (value : Document) :
  OrderedKeys (insertField key value fields)
  := by
  induction fields with
  | nil => exact List.pairwise_singleton _ _
  | cons old rest ih =>
    obtain ⟨hold, hrest⟩ := List.pairwise_cons.mp h
    rw [Document.insertField]
    split
    case isTrue hlt =>
      refine List.pairwise_cons.mpr ⟨?_, h⟩
      intro field hfield
      obtain rfl | hfield := List.mem_cons.mp hfield
      · exact hlt
      · exact hlt.trans (hold field hfield)
    case isFalse hle =>
      split
      case isTrue heq =>
        refine List.pairwise_cons.mpr ⟨fun field hfield => ?_, hrest⟩
        rw [heq]
        exact hold field hfield
      case isFalse hne =>
        refine List.pairwise_cons.mpr ⟨fun field hfield => ?_, ih hrest⟩
        obtain rfl | hfield := mem_of_mem_insertField hfield
        · exact lt_of_le_of_ne (not_lt.mp hle) (Ne.symm hne)
        · exact hold field hfield

/-- Fields from all definitions: ordered by key, and of fields with one key the last. -/
def orderedFields (fields : List (String × Document)) : List (String × Document) :=
  fields.foldl (fun sorted (key, value) => insertField key value sorted) []

theorem ofFields_eq (fields : List (String × Document)) :
  ofFields fields = .object (orderedFields fields)
  := rfl

theorem orderedFields_append (fields : List (String × Document)) (key : String)
    (value : Document) :
  orderedFields (fields ++ [(key, value)]) = insertField key value (orderedFields fields)
  := List.foldl_append

theorem orderedKeys_orderedFields (fields : List (String × Document)) :
  OrderedKeys (orderedFields fields)
  := by
  induction fields using List.reverseRecOn with
  | nil => exact .nil
  | append_singleton fields field ih =>
    rw [orderedFields_append]
    exact ih.insertField _ _

theorem mem_of_mem_orderedFields {fields : List (String × Document)} {field : String × Document}
    (h : field ∈ orderedFields fields) :
  field ∈ fields
  := by
  induction fields using List.reverseRecOn with
  | nil => exact h
  | append_singleton fields other ih =>
    rw [orderedFields_append] at h
    obtain rfl | h := mem_of_mem_insertField h
    · exact List.mem_append_right _ List.mem_cons_self
    · exact List.mem_append_left _ (ih h)

theorem lookup_cons (field : String × Document) (rest : List (String × Document)) (key : String) :
  (field :: rest).lookup key = if key = field.1 then some field.2 else rest.lookup key
  := by
  obtain ⟨first, value⟩ := field
  by_cases h : key = first
  · simp [h]
  · simp [List.lookup_cons, h, beq_false_of_ne h]

/-- A field that is put in is found under its key, and the others are found as before. -/
theorem lookup_insertField (fields : List (String × Document)) (key other : String)
    (value : Document) :
  (insertField key value fields).lookup other
    = if other = key then some value else fields.lookup other
  := by
  induction fields with
  | nil => exact lookup_cons (key, value) [] other
  | cons old rest ih =>
    obtain ⟨oldKey, oldValue⟩ := old
    rw [insertField]
    split
    case isTrue => exact lookup_cons (key, value) _ other
    case isFalse =>
      split
      case isTrue heq =>
        subst heq
        rw [lookup_cons, lookup_cons]
        split <;> rfl
      case isFalse hne =>
        rw [lookup_cons, ih, lookup_cons]
        by_cases hother : other = key
        · simp [hother, hne]
        · simp [hother]

/-- Of the fields with one key the last one counts. -/
theorem lookup_orderedFields (fields : List (String × Document)) (key : String) :
  (orderedFields fields).lookup key = fields.reverse.lookup key
  := by
  induction fields using List.reverseRecOn with
  | nil => rfl
  | append_singleton fields field ih =>
    rw [orderedFields_append, lookup_insertField, ih, List.reverse_append, List.reverse_singleton,
      List.singleton_append, lookup_cons]

/-- A field with a key greater than all others comes last. -/
theorem insertField_of_lt {fields : List (String × Document)} {key : String}
    (h : ∀ field ∈ fields, field.1 < key) (value : Document) :
  insertField key value fields = fields ++ [(key, value)]
  := by
  induction fields with
  | nil => rfl
  | cons old rest ih =>
    obtain ⟨hold, hrest⟩ := List.forall_mem_cons.mp h
    rw [insertField, if_neg (lt_asymm hold), if_neg (Ne.symm (ne_of_lt hold)), ih hrest,
      List.cons_append]

/-- Ordered fields stay as they are. -/
theorem OrderedKeys.orderedFields_eq {fields : List (String × Document)} (h : OrderedKeys fields) :
  orderedFields fields = fields
  := by
  induction fields using List.reverseRecOn with
  | nil => rfl
  | append_singleton fields field ih =>
    obtain ⟨hfields, -, hlast⟩ := List.pairwise_append.mp h
    rw [orderedFields_append, ih hfields]
    exact insertField_of_lt (fun other hother => hlast other hother field List.mem_cons_self) _

/-- Of ordered fields only one has a given key. -/
theorem OrderedKeys.unique {fields : List (String × Document)} (h : OrderedKeys fields)
    {key : String} {value other : Document} (hvalue : (key, value) ∈ fields)
    (hother : (key, other) ∈ fields) :
  value = other
  := by
  induction fields with
  | nil => cases hvalue
  | cons field rest ih =>
    obtain ⟨hfirst, hrest⟩ := List.pairwise_cons.mp h
    obtain rfl | inRest := List.mem_cons.mp hvalue
    · obtain heq | inRest' := List.mem_cons.mp hother
      · cases heq
        rfl
      · exact (lt_irrefl key (hfirst (key, other) inRest')).elim
    · obtain rfl | inRest' := List.mem_cons.mp hother
      · exact (lt_irrefl key (hfirst (key, value) inRest)).elim
      · exact ih hrest inRest inRest'

/-! ### Collapsing -/

mutual

/-- The document in which the fields of every object are ordered by their keys, and of fields
with one key only the last one is left. -/
def collapsed : Document → Document
  | .array elements => .array (collapsedElements elements)
  | .object fields => ofFields (collapsedFields fields)
  | other => other

/-- The elements of an array, each collapsed. -/
def collapsedElements : List Document → List Document
  | [] => []
  | element :: others => element.collapsed :: collapsedElements others

/-- The fields of an object, each collapsed. -/
def collapsedFields : List (String × Document) → List (String × Document)
  | [] => []
  | (key, field) :: others => (key, field.collapsed) :: collapsedFields others

end

mutual

/-- Whether a document is collapsed. -/
def IsCollapsed : Document → Prop
  | .array elements => AreCollapsed elements
  | .object fields => OrderedKeys fields ∧ HaveCollapsed fields
  | _ => True

/-- Whether all elements are collapsed. -/
def AreCollapsed : List Document → Prop
  | [] => True
  | element :: others => element.IsCollapsed ∧ AreCollapsed others

/-- Whether the values of all fields are collapsed. -/
def HaveCollapsed : List (String × Document) → Prop
  | [] => True
  | (_, field) :: others => field.IsCollapsed ∧ HaveCollapsed others

end

theorem haveCollapsed_iff {fields : List (String × Document)} :
  HaveCollapsed fields ↔ ∀ field ∈ fields, field.2.IsCollapsed
  := by
  induction fields with
  | nil => simp [HaveCollapsed]
  | cons field others ih => rw [HaveCollapsed, ih, List.forall_mem_cons]

mutual

theorem isCollapsed_collapsed : ∀ document : Document,
  document.collapsed.IsCollapsed
  | .null | .bool _ | .number _ | .string _ => trivial
  | .array elements => areCollapsed_collapsedElements elements
  | .object fields => by
    refine ⟨orderedKeys_orderedFields _, haveCollapsed_iff.mpr fun field hfield => ?_⟩
    exact haveCollapsed_iff.mp (haveCollapsed_collapsedFields fields) field
      (mem_of_mem_orderedFields hfield)

theorem areCollapsed_collapsedElements : ∀ elements : List Document,
  AreCollapsed (collapsedElements elements)
  | [] => trivial
  | element :: others => ⟨element.isCollapsed_collapsed, areCollapsed_collapsedElements others⟩

theorem haveCollapsed_collapsedFields : ∀ fields : List (String × Document),
  HaveCollapsed (collapsedFields fields)
  | [] => trivial
  | (_, field) :: others => ⟨field.isCollapsed_collapsed, haveCollapsed_collapsedFields others⟩

end

mutual

/-- A collapsed document stays as it is. -/
theorem IsCollapsed.collapsed_eq : ∀ {document : Document}, document.IsCollapsed →
  document.collapsed = document
  | .null, _ | .bool _, _ | .number _, _ | .string _, _ => rfl
  | .array _, h => congrArg Document.array (AreCollapsed.collapsedElements_eq h)
  | .object fields, h => by
    rw [collapsed, HaveCollapsed.collapsedFields_eq h.2, ofFields_eq, h.1.orderedFields_eq]

theorem AreCollapsed.collapsedElements_eq : ∀ {elements : List Document}, AreCollapsed elements →
  collapsedElements elements = elements
  | [], _ => rfl
  | _ :: _, h =>
    congrArg₂ List.cons (IsCollapsed.collapsed_eq h.1) (AreCollapsed.collapsedElements_eq h.2)

theorem HaveCollapsed.collapsedFields_eq : ∀ {fields : List (String × Document)},
    HaveCollapsed fields →
  collapsedFields fields = fields
  | [], _ => rfl
  | (key, _) :: _, h => congrArg₂ (fun value others => (key, value) :: others)
    (IsCollapsed.collapsed_eq h.1) (HaveCollapsed.collapsedFields_eq h.2)

end

/-! ### Depth -/

mutual

/-- The depth to which containers are nested. -/
def depth : Document → Nat
  | .array elements => depthOfElements elements + 1
  | .object fields => depthOfFields fields + 1
  | _ => 0

/-- The greatest depth of some elements. -/
def depthOfElements : List Document → Nat
  | [] => 0
  | element :: others => max element.depth (depthOfElements others)

/-- The greatest depth of some fields. -/
def depthOfFields : List (String × Document) → Nat
  | [] => 0
  | (_, field) :: others => max field.depth (depthOfFields others)

end

theorem depthOfFields_le_iff {fields : List (String × Document)} {depth : Nat} :
  depthOfFields fields ≤ depth ↔ ∀ field ∈ fields, field.2.depth ≤ depth
  := by
  induction fields with
  | nil => simp [depthOfFields]
  | cons field others ih => rw [depthOfFields, Nat.max_le, ih, List.forall_mem_cons]

mutual

/-- A document nests no deeper once it is collapsed. -/
theorem depth_collapsed_le : ∀ document : Document,
  document.collapsed.depth ≤ document.depth
  | .null | .bool _ | .number _ | .string _ => le_rfl
  | .array elements => Nat.succ_le_succ (depthOfElements_collapsedElements_le elements)
  | .object fields => by
    refine Nat.succ_le_succ (depthOfFields_le_iff.mpr fun field hfield => ?_)
    exact depthOfFields_le_iff.mp (depthOfFields_collapsedFields_le fields) field
      (mem_of_mem_orderedFields hfield)

theorem depthOfElements_collapsedElements_le : ∀ elements : List Document,
  depthOfElements (collapsedElements elements) ≤ depthOfElements elements
  | [] => le_rfl
  | element :: others =>
    max_le_max element.depth_collapsed_le (depthOfElements_collapsedElements_le others)

theorem depthOfFields_collapsedFields_le : ∀ fields : List (String × Document),
  depthOfFields (collapsedFields fields) ≤ depthOfFields fields
  | [] => le_rfl
  | (_, field) :: others =>
    max_le_max field.depth_collapsed_le (depthOfFields_collapsedFields_le others)

end

end Jsonnet.Document
