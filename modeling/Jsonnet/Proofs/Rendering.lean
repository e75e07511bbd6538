import Jsonnet.Proofs.Grammar

/-!
# What is written is JSON

Quoted text is a JSON string, and a document in either layout is a JSON text that stands
for the document, if the texts of its numbers are JSON numbers.
-/

namespace Jsonnet

open Jsonnet.Grammar

/-! ### Strings -/

/-- A control character is escaped with its number. -/
theorem Text.unitValue?_digits {n : Nat} (h : n < 0x20) :
  Json.unitValue? '0' '0' (Nat.digitChar (n / 16)) (Nat.digitChar (n % 16)) = some n
  := by
  revert n
  decide

theorem Grammar.Body.quoteChar {cs s rest : List Char} (h : Body cs s rest) (c : Char) :
  Body (Text.quoteChar c ++ cs) (c :: s) rest
  := by
  rw [Text.quoteChar.eq_def]
  split
  case h_8 hquote hbackslash _ _ _ _ _ =>
    split
    case isTrue hcontrol =>
      have hunit := Body.unit (Text.unitValue?_digits hcontrol)
        (by simp [Json.isLeading]; omega) (by simp [Json.isTrailing]; omega) h
      rw [Char.ofNat_toNat] at hunit
      exact hunit
    case isFalse hprintable => exact .plain hquote hbackslash (Nat.le_of_not_lt hprintable) h
  all_goals exact .escape rfl h

/-- Quoted text is a string. -/
theorem Text.body_quoted (s : List Char) (rest : List Char) :
  Body (s.flatMap Text.quoteChar ++ '"' :: rest) s rest
  := by
  induction s with
  | nil => exact .quote
  | cons c s ih =>
    rw [List.flatMap_cons, List.append_assoc]
    exact ih.quoteChar c

theorem Text.toList_quoted_append (s : String) (rest : List Char) :
  (Text.quoted s).toList ++ rest = '"' :: (s.toList.flatMap Text.quoteChar ++ '"' :: rest)
  := by
  simp [Text.quoted]

/-! ### Layouts -/

namespace Layout

variable (layout : Layout) (level : Nat) (rest : List Char)

theorem blanks_newline :
  Blanks (newline level rest) rest
  := by
  have spaces : ∀ count, Blanks (List.replicate count ' ' ++ rest) rest := by
    intro count
    induction count with
    | zero => exact .none
    | succ count ih => exact .more rfl ih
  exact .more rfl (spaces _)

theorem blanks_edge :
  Blanks (layout.edge level rest) rest
  := by
  cases layout with
  | multiLine => exact blanks_newline level rest
  | singleLine => exact .none

/-- Two entries are separated by a comma and blanks. -/
theorem separator_eq :
  ∃ cs, layout.separator level rest = ',' :: cs ∧ Blanks cs rest
  := by
  cases layout with
  | multiLine => exact ⟨_, rfl, blanks_newline level rest⟩
  | singleLine => exact ⟨_, rfl, .more rfl .none⟩

end Layout

/-! ### Documents -/

namespace Document

mutual

/-- The numbers in a document. -/
def numbers : Document → List Number
  | .number x => [x]
  | .array elements => numbersOfElements elements
  | .object fields => numbersOfFields fields
  | _ => []

/-- The numbers in the elements of an array. -/
def numbersOfElements : List Document → List Number
  | [] => []
  | element :: others => element.numbers ++ numbersOfElements others

/-- The numbers in the fields of an object. -/
def numbersOfFields : List (String × Document) → List Number
  | [] => []
  | (_, field) :: others => field.numbers ++ numbersOfFields others

end

end Document

/-- The text of a number is a JSON number that stands for it. -/
structure Grammar.Denotes (number : List Char → Number) (x : Number) : Prop where
  numeral : Numeral (numberText x).toList
  number_eq : number (numberText x).toList = x

section

variable {number : List Char → Number} {layout : Layout}

/-- A key that is written out. -/
theorem Text.key_quoted {cs rest : List Char} (key : String)
    (before : Blanks cs ((Text.quoted key).toList ++ ':' :: ' ' :: rest)) :
  Key cs key (' ' :: rest)
  := by
  rw [toList_quoted_append] at before
  have h := Key.mk before (body_quoted key.toList _) .none
  rw [String.ofList_toList] at h
  exact h

mutual

theorem Document.value_write (level : Nat) : ∀ {rest : List Char} (document : Document),
    (∀ x ∈ document.numbers, Denotes number x) →
  Value number (document.write layout level rest) document rest
  | _, .null, _ => .null
  | _, .bool true, _ => .yes
  | _, .bool false, _ => .no
  | rest, .number x, h => by
    have hx := h x List.mem_cons_self
    have hvalue : Value number (write layout level rest (.number x)) _ rest := .number hx.numeral
    rw [hx.number_eq] at hvalue
    exact hvalue
  | rest, .string s, _ => by
    rw [write, Text.toList_quoted_append]
    have hvalue : Value number _ _ rest := .string (Text.body_quoted s.toList rest)
    rw [String.ofList_toList] at hvalue
    exact hvalue
  | _, .array [], _ => .emptyArray (.more rfl .none)
  | _, .array (first :: others), h => .array (Document.elements_write level others
      (fun x hx => h x (List.mem_append_right _ hx)) (layout.blanks_edge _ _)
      (Document.value_write (level + 1) first fun x hx => h x (List.mem_append_left _ hx)))
  | _, .object [], _ => .emptyObject (.more rfl .none)
  | _, .object ((key, first) :: others), h => .object (Document.members_write level others
      (fun x hx => h x (List.mem_append_right _ hx)) (layout.blanks_edge _ _)
      (Document.value_write (level + 1) first fun x hx => h x (List.mem_append_left _ hx)))

theorem Document.elements_write (level : Nat) : ∀ {cs rest : List Char} {first : Document}
    (others : List Document), (∀ x ∈ numbersOfElements others, Denotes number x) →
    Blanks cs (first.write layout (level + 1)
      (writeElements layout level (layout.edge level (']' :: rest)) others)) →
    Value number (first.write layout (level + 1)
      (writeElements layout level (layout.edge level (']' :: rest)) others)) first
      (writeElements layout level (layout.edge level (']' :: rest)) others) →
  Elements number cs (first :: others) rest
  | _, _, _, [], _, before, value => .last ⟨before, value, layout.blanks_edge _ _⟩
  | cs, rest, first, second :: others, h, before, value => by
    obtain ⟨cs', heq, hblanks⟩ := layout.separator_eq (level + 1) (second.write layout (level + 1)
      (writeElements layout level (layout.edge level (']' :: rest)) others))
    rw [writeElements, heq] at before value
    exact .more ⟨before, value, .none⟩ (Document.elements_write level others
      (fun x hx => h x (List.mem_append_right _ hx)) hblanks
      (Document.value_write (level + 1) second fun x hx => h x (List.mem_append_left _ hx)))

theorem Document.members_write (level : Nat) : ∀ {cs rest : List Char} {key : String}
    {first : Document} (others : List (String × Document)),
    (∀ x ∈ numbersOfFields others, Denotes number x) →
    Blanks cs ((Text.quoted key).toList ++ ':' :: ' ' :: first.write layout (level + 1)
      (writeFields layout level (layout.edge level ('\x7d' :: rest)) others)) →
    Value number (first.write layout (level + 1)
      (writeFields layout level (layout.edge level ('\x7d' :: rest)) others)) first
      (writeFields layout level (layout.edge level ('\x7d' :: rest)) others) →
  Members number cs ((key, first) :: others) rest
  | _, _, key, _, [], _, before, value =>
    .last (Text.key_quoted key before) ⟨.more rfl .none, value, layout.blanks_edge _ _⟩
  | cs, rest, key, first, (key', second) :: others, h, before, value => by
    obtain ⟨cs', heq, hblanks⟩ := layout.separator_eq (level + 1)
      ((Text.quoted key').toList ++ ':' :: ' ' :: second.write layout (level + 1)
        (writeFields layout level (layout.edge level ('\x7d' :: rest)) others))
    rw [writeFields, heq] at before value
    exact .more (Text.key_quoted key before) ⟨.more rfl .none, value, .none⟩
      (Document.members_write level others (fun x hx => h x (List.mem_append_right _ hx)) hblanks
        (Document.value_write (level + 1) second fun x hx => h x (List.mem_append_left _ hx)))

end

/-- A document that is written out is a text that stands for it. -/
theorem Document.text_render (document : Document)
    (h : ∀ x ∈ document.numbers, Denotes number x) :
  Grammar.Text number (document.render layout) document
  := by
  rw [Grammar.Text, render, String.toList_ofList]
  exact ⟨.none, document.value_write 0 h, .none⟩

end

end Jsonnet
