import Mathlib.Tactic.Common
import Jsonnet.Json.Reader

/-!
# JSON texts

The grammar of JSON. Every relation says how some characters begin, what that stands for,
and which characters follow. What the characters of a number stand for is a parameter. A
text stands for one document at most.
-/

namespace Jsonnet.Grammar

/-! ### Tokens -/

/-- Any number of blanks. -/
inductive Blanks : List Char → List Char → Prop where
  | none {cs : List Char} : Blanks cs cs
  | more {c : Char} {cs rest : List Char} (blank : Json.isBlank c = true) (others : Blanks cs rest) :
    Blanks (c :: cs) rest

/-- One digit or several. -/
structure Digits (cs : List Char) : Prop where
  nonempty : cs ≠ []
  digit : ∀ c ∈ cs, c.isDigit = true

/-- An integer without a sign. -/
inductive Whole : List Char → Prop where
  | zero : Whole ['0']
  | digits {c : Char} {cs : List Char} (nonzero : c ≠ '0') (digits : Digits (c :: cs)) : Whole (c :: cs)

/-- A point with digits, if there is one. -/
inductive Fraction : List Char → Prop where
  | none : Fraction []
  | point {cs : List Char} (digits : Digits cs) : Fraction ('.' :: cs)

/-- An exponent, if there is one. -/
inductive Exponent : List Char → Prop where
  | none : Exponent []
  | plain {e : Char} {cs : List Char} (mark : e = 'e' ∨ e = 'E') (digits : Digits cs) :
    Exponent (e :: cs)
  | signed {e c : Char} {cs : List Char} (mark : e = 'e' ∨ e = 'E') (sign : c = '+' ∨ c = '-')
      (digits : Digits cs) :
    Exponent (e :: c :: cs)

/-- The characters of a number without a sign. -/
inductive Unsigned : List Char → Prop where
  | mk {whole fraction exponent : List Char} (hwhole : Whole whole) (hfraction : Fraction fraction)
      (hexponent : Exponent exponent) :
    Unsigned (whole ++ fraction ++ exponent)

/-- The characters of a number. -/
inductive Numeral : List Char → Prop where
  | positive {cs : List Char} (unsigned : Unsigned cs) : Numeral cs
  | negative {cs : List Char} (unsigned : Unsigned cs) : Numeral ('-' :: cs)

/-- The characters of a string after its opening quote. -/
inductive Body : List Char → List Char → List Char → Prop where
  | quote {rest : List Char} : Body ('"' :: rest) [] rest
  | plain {c : Char} {cs s rest : List Char} (hquote : c ≠ '"') (hbackslash : c ≠ '\\')
      (printable : 0x20 ≤ c.toNat) (others : Body cs s rest) :
    Body (c :: cs) (c :: s) rest
  | escape {e c : Char} {cs s rest : List Char} (value : Json.escapeValue? e = some c)
      (others : Body cs s rest) :
    Body ('\\' :: e :: cs) (c :: s) rest
  | unit {a b c d : Char} {unit : Nat} {cs s rest : List Char}
      (value : Json.unitValue? a b c d = some unit) (leading : Json.isLeading unit = false)
      (trailing : Json.isTrailing unit = false) (others : Body cs s rest) :
    Body ('\\' :: 'u' :: a :: b :: c :: d :: cs) (.ofNat unit :: s) rest
  | pair {a b c d e f g h : Char} {first second : Nat} {cs s rest : List Char}
      (value : Json.unitValue? a b c d = some first) (leading : Json.isLeading first = true)
      (value' : Json.unitValue? e f g h = some second) (trailing : Json.isTrailing second = true)
      (others : Body cs s rest) :
    Body ('\\' :: 'u' :: a :: b :: c :: d :: '\\' :: 'u' :: e :: f :: g :: h :: cs)
      (Json.pairValue first second :: s) rest

/-- A key with its colon, and blanks around it. -/
inductive Key : List Char → String → List Char → Prop where
  | mk {cs cs' cs'' s rest : List Char} (before : Blanks cs ('"' :: cs')) (body : Body cs' s cs'')
      (after : Blanks cs'' (':' :: rest)) :
    Key cs (.ofList s) rest

/-! ### Values -/

mutual

/-- A value. -/
inductive Value (number : List Char → Number) : List Char → Document → List Char → Prop where
  | null {rest : List Char} : Value number ('n' :: 'u' :: 'l' :: 'l' :: rest) .null rest
  | yes {rest : List Char} : Value number ('t' :: 'r' :: 'u' :: 'e' :: rest) (.bool true) rest
  | no {rest : List Char} :
    Value number ('f' :: 'a' :: 'l' :: 's' :: 'e' :: rest) (.bool false) rest
  | number {cs rest : List Char} (numeral : Numeral cs) :
    Value number (cs ++ rest) (.number (number cs)) rest
  | string {cs s rest : List Char} (body : Body cs s rest) :
    Value number ('"' :: cs) (.string (.ofList s)) rest
  | emptyArray {cs rest : List Char} (blanks : Blanks cs (']' :: rest)) :
    Value number ('[' :: cs) (.array []) rest
  | array {cs rest : List Char} {elements : List Document} (inside : Elements number cs elements rest) :
    Value number ('[' :: cs) (.array elements) rest
  | emptyObject {cs rest : List Char} (blanks : Blanks cs ('\x7d' :: rest)) :
    Value number ('\x7b' :: cs) (.object []) rest
  | object {cs rest : List Char} {fields : List (String × Document)}
      (inside : Members number cs fields rest) :
    Value number ('\x7b' :: cs) (.object fields) rest

/-- A value with blanks around it. -/
inductive Padded (number : List Char → Number) : List Char → Document → List Char → Prop where
  | mk {cs cs' cs'' rest : List Char} {document : Document} (before : Blanks cs cs')
      (value : Value number cs' document cs'') (after : Blanks cs'' rest) :
    Padded number cs document rest

/-- The elements of an array, up to its closing bracket. -/
inductive Elements (number : List Char → Number) :
    List Char → List Document → List Char → Prop where
  | last {cs rest : List Char} {element : Document} (value : Padded number cs element (']' :: rest)) :
    Elements number cs [element] rest
  | more {cs cs' rest : List Char} {element : Document} {elements : List Document}
      (value : Padded number cs element (',' :: cs')) (others : Elements number cs' elements rest) :
    Elements number cs (element :: elements) rest

/-- The members of an object, up to its closing brace. -/
inductive Members (number : List Char → Number) :
    List Char → List (String × Document) → List Char → Prop where
  | last {cs cs' rest : List Char} {key : String} {field : Document} (name : Key cs key cs')
      (value : Padded number cs' field ('\x7d' :: rest)) :
    Members number cs [(key, field)] rest
  | more {cs cs' cs'' rest : List Char} {key : String} {field : Document}
      {fields : List (String × Document)} (name : Key cs key cs')
      (value : Padded number cs' field (',' :: cs'')) (others : Members number cs'' fields rest) :
    Members number cs ((key, field) :: fields) rest

end

/-- A whole text: one value with blanks around it. -/
def Text (number : List Char → Number) (text : String) (document : Document) : Prop :=
  Padded number text.toList document []

/-! ### Tokens are found in one way -/

/-- Characters that do not begin with a blank. -/
def Solid (cs : List Char) : Prop := ∀ c ∈ cs.head?, Json.isBlank c = false

theorem Blanks.unique {cs rest rest' : List Char} (h : Blanks cs rest) (h' : Blanks cs rest')
    (solid : Solid rest) (solid' : Solid rest') :
  rest = rest'
  := by
  induction h with
  | none =>
    cases h' with
    | none => rfl
    | more blank => exact absurd (solid _ rfl) (by simp [blank])
  | more blank others ih =>
    cases h' with
    | none => exact absurd (solid' _ rfl) (by simp [blank])
    | more _ others' => exact ih others' solid

theorem Body.unique {cs s s' rest rest' : List Char} (h : Body cs s rest) (h' : Body cs s' rest') :
  s = s' ∧ rest = rest'
  := by
  induction h generalizing s' with
  | quote =>
    cases h' with
    | quote => exact ⟨rfl, rfl⟩
    | plain hquote => exact absurd rfl hquote
  | plain hquote hbackslash printable others ih =>
    cases h' with
    | quote => exact absurd rfl hquote
    | plain _ _ _ others' => exact (ih others').imp_left (congrArg _)
    | escape | unit | pair => exact absurd rfl hbackslash
  | escape value others ih =>
    cases h' with
    | plain _ hbackslash => exact absurd rfl hbackslash
    | escape value' others' =>
      cases value.symm.trans value'
      exact (ih others').imp_left (congrArg _)
    | unit | pair => cases value
  | unit value leading trailing others ih =>
    cases h' with
    | plain _ hbackslash => exact absurd rfl hbackslash
    | escape value' => cases value'
    | unit value' _ _ others' =>
      cases value.symm.trans value'
      exact (ih others').imp_left (congrArg _)
    | pair value' leading' =>
      cases value.symm.trans value'
      rw [leading] at leading'
      cases leading'
  | pair first leading second trailing others ih =>
    cases h' with
    | plain _ hbackslash => exact absurd rfl hbackslash
    | escape value' => cases value'
    | unit value' leading' =>
      cases first.symm.trans value'
      rw [leading] at leading'
      cases leading'
    | pair first' _ second' _ others' =>
      cases first.symm.trans first'
      cases second.symm.trans second'
      exact (ih others').imp_left (congrArg _)

theorem Key.unique {cs rest rest' : List Char} {key key' : String} (h : Key cs key rest)
    (h' : Key cs key' rest') :
  key = key' ∧ rest = rest'
  := by
  have quote : ∀ cs, Solid ('"' :: cs) := by
    rintro cs c ⟨⟩
    rfl
  have colon : ∀ cs, Solid (':' :: cs) := by
    rintro cs c ⟨⟩
    rfl
  cases h with
  | mk before body after =>
    cases h' with
    | mk before' body' after' =>
      cases before.unique before' (quote _) (quote _)
      obtain ⟨rfl, rfl⟩ := body.unique body'
      cases after.unique after' (colon _) (colon _)
      exact ⟨rfl, rfl⟩

/-! ### Numbers -/

/-- The characters that numbers are made of. -/
def isNumeric (c : Char) : Bool :=
  c.isDigit || c == '-' || c == '+' || c == '.' || c == 'e' || c == 'E'

/-- A character that a number may begin with. -/
def isNumberStart (c : Char) : Bool := c.isDigit || c == '-'

theorem Digits.numeric {cs : List Char} (h : Digits cs) :
  ∀ c ∈ cs, isNumeric c = true
  := by
  intro c hc
  simp [isNumeric, h.digit c hc]

theorem Whole.digits_of {cs : List Char} (h : Whole cs) :
  Digits cs
  := by
  cases h with
  | zero => exact ⟨by simp, by simp⟩
  | digits _ digits => exact digits

theorem Unsigned.numeric {cs : List Char} (h : Unsigned cs) :
  ∀ c ∈ cs, isNumeric c = true
  := by
  obtain @⟨whole, fraction, exponent, hwhole, hfraction, hexponent⟩ := h
  intro c hc
  rw [List.mem_append, List.mem_append] at hc
  obtain (hc | hc) | hc := hc
  · exact hwhole.digits_of.numeric c hc
  · cases hfraction with
    | none => cases hc
    | point digits =>
      obtain rfl | hc := List.mem_cons.mp hc
      · rfl
      · exact digits.numeric c hc
  · cases hexponent with
    | none => cases hc
    | plain mark digits =>
      obtain rfl | hc := List.mem_cons.mp hc
      · obtain rfl | rfl := mark <;> rfl
      · exact digits.numeric c hc
    | signed mark sign digits =>
      obtain rfl | hc := List.mem_cons.mp hc
      · obtain rfl | rfl := mark <;> rfl
      · obtain rfl | hc := List.mem_cons.mp hc
        · obtain rfl | rfl := sign <;> rfl
        · exact digits.numeric c hc

theorem Numeral.numeric {cs : List Char} (h : Numeral cs) :
  ∀ c ∈ cs, isNumeric c = true
  := by
  cases h with
  | positive unsigned => exact unsigned.numeric
  | negative unsigned =>
    intro c hc
    obtain rfl | hc := List.mem_cons.mp hc
    · rfl
    · exact unsigned.numeric c hc

/-- A number begins with a digit or a minus. -/
theorem Numeral.exists_cons {cs : List Char} (h : Numeral cs) :
  ∃ c rest, cs = c :: rest ∧ isNumberStart c = true
  := by
  cases h with
  | positive unsigned =>
    cases unsigned with
    | mk hwhole =>
      obtain ⟨hne, hdigit⟩ := hwhole.digits_of
      obtain ⟨c, rest, rfl⟩ := List.exists_cons_of_ne_nil hne
      exact ⟨c, _, rfl, by simp [isNumberStart, hdigit c List.mem_cons_self]⟩
  | negative => exact ⟨'-', _, rfl, rfl⟩

/-- Characters that a number does not begin with. -/
theorem Numeral.append_ne {cs rest cs' : List Char} {c : Char} (h : Numeral cs)
    (hc : isNumberStart c = false) :
  cs ++ rest ≠ c :: cs'
  := by
  obtain ⟨d, cs, rfl, hd⟩ := h.exists_cons
  intro heq
  cases heq
  rw [hc] at hd
  cases hd

/-- What follows a value with the blanks behind it: the end of the text, or what separates and
closes. -/
def Closes (rest : List Char) : Prop := ∀ c ∈ rest.head?, c = ',' ∨ c = ']' ∨ c = '\x7d'

/-- What follows a value: blanks, too. -/
def Ends (rest : List Char) : Prop :=
  ∀ c ∈ rest.head?, Json.isBlank c = true ∨ c = ',' ∨ c = ']' ∨ c = '\x7d'

/-- A blank is no part of a number. -/
theorem not_blank_of_numeric {c : Char} (h : isNumeric c = true) :
  Json.isBlank c = false
  := by
  by_contra hblank
  simp only [Json.isBlank, Bool.not_eq_false, Bool.or_eq_true, beq_iff_eq] at hblank
  obtain ((rfl | rfl) | rfl) | rfl := hblank <;> cases h

theorem Ends.not_numeric {rest : List Char} (h : Ends rest) :
  ∀ c ∈ rest.head?, isNumeric c = false
  := by
  intro c hc
  by_contra hnumeric
  rw [Bool.not_eq_false] at hnumeric
  obtain hblank | rfl | rfl | rfl := h c hc
  · rw [not_blank_of_numeric hnumeric] at hblank
    cases hblank
  all_goals cases hnumeric

theorem Numeral.unique {cs cs' rest rest' : List Char} (h : Numeral cs) (h' : Numeral cs')
    (heq : cs ++ rest = cs' ++ rest') (ends : Ends rest) (ends' : Ends rest') :
  cs = cs' ∧ rest = rest'
  := by
  have taken : ∀ {cs rest : List Char}, (∀ c ∈ cs, isNumeric c = true) → Ends rest →
      (cs ++ rest).takeWhile isNumeric = cs := by
    intro cs rest hcs hrest
    rw [List.takeWhile_append_of_pos hcs]
    cases rest with
    | nil => simp
    | cons c rest => simp [hrest.not_numeric c rfl]
  have hcs : cs = cs' := by
    rw [← taken h.numeric ends, heq, taken h'.numeric ends']
  subst hcs
  exact ⟨rfl, List.append_cancel_left heq⟩

/-! ### A text stands for one document -/

section

variable {number : List Char → Number}

/-- A value does not begin with a blank, nor with what closes. -/
theorem Value.exists_cons {cs rest : List Char} {document : Document}
    (h : Value number cs document rest) :
  ∃ c cs', cs = c :: cs' ∧ Json.isBlank c = false ∧ c ≠ ']' ∧ c ≠ '\x7d'
  := by
  cases h with
  | number numeral =>
    obtain ⟨c, cs, rfl, hc⟩ := numeral.exists_cons
    refine ⟨c, _, rfl, not_blank_of_numeric (numeral.numeric c List.mem_cons_self), ?_, ?_⟩
    · rintro rfl
      cases hc
    · rintro rfl
      cases hc
  | _ => exact ⟨_, _, rfl, rfl, by decide, by decide⟩

theorem Value.solid {cs rest : List Char} {document : Document}
    (h : Value number cs document rest) :
  Solid cs
  := by
  obtain ⟨c, cs, rfl, hc, -⟩ := h.exists_cons
  rintro _ ⟨⟩
  exact hc

theorem solid_cons {c : Char} (h : Json.isBlank c = false) (cs : List Char) :
  Solid (c :: cs)
  := by
  rintro _ ⟨⟩
  exact h

theorem Closes.solid {cs : List Char} (h : Closes cs) :
  Solid cs
  := by
  intro c hc
  obtain rfl | rfl | rfl := h c hc <;> rfl

theorem closes_comma (cs : List Char) :
  Closes (',' :: cs)
  := by
  rintro _ ⟨⟩
  exact .inl rfl

theorem closes_bracket (cs : List Char) :
  Closes (']' :: cs)
  := by
  rintro _ ⟨⟩
  exact .inr (.inl rfl)

theorem closes_brace (cs : List Char) :
  Closes ('\x7d' :: cs)
  := by
  rintro _ ⟨⟩
  exact .inr (.inr rfl)

/-- Blanks before what closes come after a value. -/
theorem Blanks.ends {cs rest : List Char} (h : Blanks cs rest) (closes : Closes rest) :
  Ends cs
  := by
  cases h with
  | none => exact fun c hc => .inr (closes c hc)
  | more blank others =>
    rintro _ ⟨⟩
    exact .inl blank

/-- A container that has an entry is not empty. -/
theorem Padded.not_closed {cs rest rest' : List Char} {document : Document} {c : Char}
    (h : Padded number cs document rest) (hc : c = ']' ∨ c = '\x7d')
    (blanks : Blanks cs (c :: rest')) :
  False
  := by
  cases h with
  | mk before value after =>
    have hblank : Json.isBlank c = false := by
      obtain rfl | rfl := hc <;> rfl
    cases before.unique blanks value.solid (solid_cons hblank _)
    obtain ⟨d, cs, heq, -, hbracket, hbrace⟩ := value.exists_cons
    cases heq
    obtain rfl | rfl := hc
    · exact hbracket rfl
    · exact hbrace rfl

theorem Members.not_closed {cs rest rest' : List Char} {fields : List (String × Document)}
    (h : Members number cs fields rest) (blanks : Blanks cs ('\x7d' :: rest')) :
  False
  := by
  cases h with
  | last name | more name =>
    cases name with
    | mk before => cases before.unique blanks (solid_cons rfl _) (solid_cons rfl _)

mutual

theorem Value.unique : ∀ {cs rest : List Char} {document : Document},
    Value number cs document rest → ∀ {cs' rest' : List Char} {document' : Document},
    Value number cs' document' rest' → cs = cs' → Ends rest → Ends rest' →
  document = document' ∧ rest = rest'
  | _, _, _, .null => by
    intro h' heq _ _
    cases h' with
    | null => exact ⟨rfl, by simpa using heq⟩
    | number numeral => exact absurd heq.symm (numeral.append_ne rfl)
    | _ => simp at heq
  | _, _, _, .yes => by
    intro h' heq _ _
    cases h' with
    | yes => exact ⟨rfl, by simpa using heq⟩
    | number numeral => exact absurd heq.symm (numeral.append_ne rfl)
    | _ => simp at heq
  | _, _, _, .no => by
    intro h' heq _ _
    cases h' with
    | no => exact ⟨rfl, by simpa using heq⟩
    | number numeral => exact absurd heq.symm (numeral.append_ne rfl)
    | _ => simp at heq
  | _, _, _, .number numeral => by
    intro h' heq ends ends'
    cases h' with
    | number numeral' =>
      obtain ⟨rfl, rfl⟩ := numeral.unique numeral' heq ends ends'
      exact ⟨rfl, rfl⟩
    | _ => exact absurd heq (numeral.append_ne rfl)
  | _, _, _, .string body => by
    intro h' heq _ _
    cases h' with
    | number numeral => exact absurd heq.symm (numeral.append_ne rfl)
    | string body' =>
      cases heq
      obtain ⟨rfl, rfl⟩ := body.unique body'
      exact ⟨rfl, rfl⟩
    | _ => simp at heq
  | _, _, _, .emptyArray blanks => by
    intro h' heq _ _
    cases h' with
    | number numeral => exact absurd heq.symm (numeral.append_ne rfl)
    | emptyArray blanks' =>
      cases heq
      cases blanks.unique blanks' (solid_cons rfl _) (solid_cons rfl _)
      exact ⟨rfl, rfl⟩
    | array inside =>
      cases heq
      cases inside with
      | last value | more value => exact (value.not_closed (.inl rfl) blanks).elim
    | _ => simp at heq
  | _, _, _, .array inside => by
    intro h' heq _ _
    cases h' with
    | number numeral => exact absurd heq.symm (numeral.append_ne rfl)
    | emptyArray blanks =>
      cases heq
      cases inside with
      | last value | more value => exact (value.not_closed (.inl rfl) blanks).elim
    | array inside' =>
      cases heq
      exact (inside.unique inside').imp_left (congrArg _)
    | _ => simp at heq
  | _, _, _, .emptyObject blanks => by
    intro h' heq _ _
    cases h' with
    | number numeral => exact absurd heq.symm (numeral.append_ne rfl)
    | emptyObject blanks' =>
      cases heq
      cases blanks.unique blanks' (solid_cons rfl _) (solid_cons rfl _)
      exact ⟨rfl, rfl⟩
    | object inside =>
      cases heq
      exact (inside.not_closed blanks).elim
    | _ => simp at heq
  | _, _, _, .object inside => by
    intro h' heq _ _
    cases h' with
    | number numeral => exact absurd heq.symm (numeral.append_ne rfl)
    | emptyObject blanks =>
      cases heq
      exact (inside.not_closed blanks).elim
    | object inside' =>
      cases heq
      exact (inside.unique inside').imp_left (congrArg _)
    | _ => simp at heq

theorem Padded.unique : ∀ {cs rest : List Char} {document : Document},
    Padded number cs document rest → ∀ {rest' : List Char} {document' : Document},
    Padded number cs document' rest' → Closes rest → Closes rest' →
  document = document' ∧ rest = rest'
  | _, _, _, .mk before value after => by
    rintro ⟨before', value', after'⟩ closes closes'
    have heq := before.unique before' value.solid value'.solid
    obtain ⟨rfl, rfl⟩ := value.unique value' heq (after.ends closes) (after'.ends closes')
    exact ⟨rfl, after.unique after' closes.solid closes'.solid⟩

theorem Elements.unique : ∀ {cs rest : List Char} {elements : List Document},
    Elements number cs elements rest → ∀ {rest' : List Char} {elements' : List Document},
    Elements number cs elements' rest' →
  elements = elements' ∧ rest = rest'
  | _, _, _, .last value => by
    intro h'
    cases h' with
    | last value' =>
      obtain ⟨rfl, heq⟩ := value.unique value' (closes_bracket _) (closes_bracket _)
      cases heq
      exact ⟨rfl, rfl⟩
    | more value' =>
      obtain ⟨-, heq⟩ := value.unique value' (closes_bracket _) (closes_comma _)
      simp at heq
  | _, _, _, .more value others => by
    intro h'
    cases h' with
    | last value' =>
      obtain ⟨-, heq⟩ := value.unique value' (closes_comma _) (closes_bracket _)
      simp at heq
    | more value' others' =>
      obtain ⟨rfl, heq⟩ := value.unique value' (closes_comma _) (closes_comma _)
      cases heq
      exact (others.unique others').imp_left (congrArg _)

theorem Members.unique : ∀ {cs rest : List Char} {fields : List (String × Document)},
    Members number cs fields rest → ∀ {rest' : List Char} {fields' : List (String × Document)},
    Members number cs fields' rest' →
  fields = fields' ∧ rest = rest'
  | _, _, _, .last name value => by
    intro h'
    cases h' with
    | last name' value' =>
      obtain ⟨rfl, rfl⟩ := name.unique name'
      obtain ⟨rfl, heq⟩ := value.unique value' (closes_brace _) (closes_brace _)
      cases heq
      exact ⟨rfl, rfl⟩
    | more name' value' =>
      obtain ⟨rfl, rfl⟩ := name.unique name'
      obtain ⟨-, heq⟩ := value.unique value' (closes_brace _) (closes_comma _)
      simp at heq
  | _, _, _, .more name value others => by
    intro h'
    cases h' with
    | last name' value' =>
      obtain ⟨rfl, rfl⟩ := name.unique name'
      obtain ⟨-, heq⟩ := value.unique value' (closes_comma _) (closes_brace _)
      simp at heq
    | more name' value' others' =>
      obtain ⟨rfl, rfl⟩ := name.unique name'
      obtain ⟨rfl, heq⟩ := value.unique value' (closes_comma _) (closes_comma _)
      cases heq
      exact (others.unique others').imp_left (congrArg _)

end

/-- A text stands for one document at most. -/
theorem Text.unique {text : String} {document document' : Document} (h : Text number text document)
    (h' : Text number text document') :
  document = document'
  := by
  have closes : Closes [] := by simp [Closes]
  exact (Padded.unique h h' closes closes).1

end

end Jsonnet.Grammar
