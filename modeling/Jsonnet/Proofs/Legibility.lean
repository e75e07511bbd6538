import Mathlib.Tactic.Common
import Jsonnet.Proofs.Rendering

/-!
# Different documents have different texts

A document can be told from its text, whatever follows the text, as long as its numbers can be
told from theirs. This is true of infinite numbers, too, which are written out in a way that is
not JSON.
-/

namespace Jsonnet

open Jsonnet.Grammar

/-! ### Texts of numbers -/

/-- The characters of the texts of numbers. -/
def isPlain (c : Char) : Bool :=
  c.isDigit || c == '-' || c == '.' || c == 'i' || c == 'n' || c == 'f'

/-- The characters with which the texts of numbers begin. -/
def startsNumber (c : Char) : Bool := c.isDigit || c == '-' || c == 'i'

/-- Digits around at most one point, a digit first. -/
structure Positional (cs : List Char) : Prop where
  head : ∃ c rest, cs = c :: rest ∧ c.isDigit = true
  plain : ∀ c ∈ cs, isPlain c = true

theorem isPlain_of_isDigit {c : Char} (h : c.isDigit = true) :
  isPlain c = true
  := by
  simp [isPlain, h]

theorem toList_pushn (s : String) (c : Char) (count : Nat) :
  (s.pushn c count).toList = s.toList ++ List.replicate count c
  := by
  rw [String.pushn]
  induction count with
  | zero => simp [Nat.repeat]
  | succ count ih => rw [Nat.repeat, String.toList_push, ih, List.append_assoc, List.replicate_succ']

/-- Digits, of which there is at least one. -/
theorem Positional.digits {cs : List Char} (hne : cs ≠ []) (h : ∀ c ∈ cs, c.isDigit = true) :
  Positional cs
  := by
  obtain ⟨first, others, rfl⟩ := List.exists_cons_of_ne_nil hne
  exact ⟨⟨first, others, rfl, h first List.mem_cons_self⟩, fun c hc => isPlain_of_isDigit (h c hc)⟩

theorem Positional.append {cs more : List Char} (h : Positional cs)
    (plain : ∀ c ∈ more, isPlain c = true) :
  Positional (cs ++ more)
  := by
  obtain ⟨⟨first, others, rfl, hfirst⟩, hplain⟩ := h
  refine ⟨⟨first, others ++ more, rfl, hfirst⟩, ?_⟩
  intro c hc
  exact (List.mem_append.mp hc).elim (hplain c) (plain c)

/-- The text of a decimal consists of digits and a point, and begins with a digit. -/
theorem Decimal.positional_text (d : Decimal) :
  Positional d.text.toList
  := by
  have hne : (toString d.digits).toList ≠ [] := Nat.toList_repr ▸ Nat.toDigits_ne_nil
  have hdigits : ∀ c ∈ (toString d.digits).toList, c.isDigit = true := by
    intro c hc
    rw [show (toString d.digits).toList = Nat.toDigits 10 d.digits from Nat.toList_repr] at hc
    exact Nat.isDigit_of_mem_toDigits (by decide) (by decide) hc
  have zeros : ∀ count, ∀ c ∈ List.replicate count '0', isPlain c = true := by
    intro count c hc
    rw [List.eq_of_mem_replicate hc]
    rfl
  rw [Decimal.text]
  generalize toString d.digits = digits at hne hdigits
  have plain : ∀ c ∈ digits.toList, isPlain c = true := fun c hc => isPlain_of_isDigit (hdigits c hc)
  cases d.exponent with
  | ofNat k =>
    dsimp only
    rw [String.toList_append, toList_pushn]
    exact (Positional.digits hne hdigits).append (zeros k)
  | negSucc k =>
    dsimp only
    split
    case isTrue =>
      rw [String.toList_append, String.toList_append, toList_pushn]
      have point : Positional "0.".toList := ⟨⟨'0', ['.'], rfl, rfl⟩, List.all_eq_true.mp rfl⟩
      exact (point.append (zeros _)).append plain
    case isFalse hlt =>
      rw [String.toList_append, String.toList_append, String.toList_ofList, String.toList_ofList]
      have whole : Positional (digits.toList.take (digits.length - (k + 1))) := by
        apply Positional.digits
        · rw [Ne, List.take_eq_nil_iff]
          rintro (h | h)
          · omega
          · exact hne h
        · exact fun c hc => hdigits c (List.mem_of_mem_take hc)
      have point : ∀ c ∈ ".".toList, isPlain c = true := List.all_eq_true.mp rfl
      refine (whole.append point).append ?_
      intro c hc
      rw [String.toList_ofList] at hc
      exact plain c (List.mem_of_mem_drop hc)

/-! ### Kinds of numbers -/

namespace Number

variable {x y : Number}

theorem isNaN_iff :
  x.isNaN = true ↔ Binary64.exponentOf x.bits = 2047 ∧ Binary64.fractionOf x.bits ≠ 0
  := by
  rw [isNaN, decide_eq_true_iff, magnitude, infiniteMagnitude, Binary64.exponentOf,
    Binary64.fractionOf]
  simp only [Nat.pow_eq]
  omega

/-- A number is infinite or finite. -/
theorem value_cases (h : x.isNaN = false) :
  (∃ negative, x.value = .infinite negative) ∨ ∃ negative units, x.value = .finite negative units
  := by
  rw [value, Binary64.ofBits]
  by_cases hexponent : Binary64.exponentOf x.bits = 2047
  · by_cases hfraction : Binary64.fractionOf x.bits = 0
    · simp [hexponent, hfraction]
    · rw [isNaN_iff.mpr ⟨hexponent, hfraction⟩] at h
      cases h
  · simp [hexponent]

theorem ext_toNat (h : x.bits.toNat = y.bits.toNat) :
  x = y
  := by
  cases x
  cases y
  exact congrArg _ (UInt64.toNat_inj.mp h)

/-- Numbers that are equal in the order of all numbers are the same, the two zeros apart. -/
theorem eq_of_rank_eq (h : x.rank = y.rank) (hx : x ≠ -zero) (hy : y ≠ -zero) :
  x = y
  := by
  have nonzero : ∀ {z : Number}, z ≠ -zero → z.bits.toNat ≠ Nat.pow 2 63 := by
    intro z hz heq
    exact hz (ext_toNat heq)
  have hx := nonzero hx
  have hy := nonzero hy
  have hltx := x.bits.toNat_lt
  have hlty := y.bits.toNat_lt
  apply ext_toNat
  rw [rank, rank, Binary64.signOf, Binary64.signOf, magnitude, magnitude] at h
  simp only [Nat.pow_eq, beq_iff_eq] at *
  split at h <;> split at h <;> simp only [Int.ofNat_eq_natCast] at h <;> omega

/-- What is a number and not the negative zero is equal to nothing but itself. -/
theorem equal_eq_decide (hx : x.isNaN = false ∧ x ≠ -zero) (hy : y.isNaN = false ∧ y ≠ -zero) :
  x.equal y = decide (x = y)
  := by
  rw [equal, hx.1, hy.1, Bool.not_false, Bool.true_and, Bool.true_and, Bool.eq_iff_iff, beq_iff_eq,
    decide_eq_true_iff]
  constructor
  · intro h
    exact eq_of_rank_eq h hx.2 hy.2
  · exact congrArg _

/-- The text of a finite number, apart from its sign. -/
theorem exists_text {negative : Bool} {units : Nat} (h : x.value = .finite negative units) :
  ∃ cs, Positional cs ∧ (numberText x).toList = if negative then '-' :: cs else cs
  := by
  have magnitude : Positional
      (if units = 0 then "0" else (Decimal.shortest x.bits).text).toList := by
    split
    · exact ⟨⟨'0', [], rfl, rfl⟩, List.all_eq_true.mp rfl⟩
    · exact Decimal.positional_text _
  refine ⟨_, magnitude, ?_⟩
  rw [numberText, h]
  dsimp only
  split
  · rw [String.toList_append]
    rfl
  · rfl

theorem text_infinite {negative : Bool} (h : x.value = .infinite negative) :
  (numberText x).toList = if negative then ['-', 'i', 'n', 'f'] else ['i', 'n', 'f']
  := by
  simp only [numberText, h]
  cases negative
  · exact (rfl : "inf".toList = _)
  · exact (rfl : "-inf".toList = _)

/-- The text of a number begins like a number and consists of plain characters. -/
theorem text_plain (h : x.isNaN = false) :
  (∃ c rest, (numberText x).toList = c :: rest ∧ startsNumber c = true) ∧
    ∀ c ∈ (numberText x).toList, isPlain c = true
  := by
  obtain ⟨negative, hx⟩ | ⟨negative, units, hx⟩ := value_cases h
  · rw [text_infinite hx]
    cases negative
    · exact ⟨⟨'i', ['n', 'f'], rfl, rfl⟩, List.all_eq_true.mp rfl⟩
    · exact ⟨⟨'-', ['i', 'n', 'f'], rfl, rfl⟩, List.all_eq_true.mp rfl⟩
  · obtain ⟨cs, ⟨⟨c, rest, rfl, hc⟩, plain⟩, heq⟩ := exists_text hx
    rw [heq]
    cases negative with
    | false => exact ⟨⟨c, rest, rfl, by simp [startsNumber, hc]⟩, plain⟩
    | true =>
      refine ⟨⟨'-', c :: rest, rfl, rfl⟩, ?_⟩
      intro d hd
      obtain rfl | hd := List.mem_cons.mp hd
      · rfl
      · exact plain d hd

end Number

/-! ### Layouts -/

namespace Layout

variable (layout : Layout) (level : Nat)

theorem newline_inj {rest rest' : List Char} (h : newline level rest = newline level rest') :
  rest = rest'
  := List.append_cancel_left (List.cons.inj h).2

theorem edge_inj {rest rest' : List Char} (h : layout.edge level rest = layout.edge level rest') :
  rest = rest'
  := by
  cases layout with
  | multiLine => exact newline_inj level h
  | singleLine => exact h

theorem separator_inj {rest rest' : List Char}
    (h : layout.separator level rest = layout.separator level rest') :
  rest = rest'
  := by
  cases layout with
  | multiLine => exact newline_inj level (List.cons.inj h).2
  | singleLine => exact (List.cons.inj (List.cons.inj h).2).2

theorem ends_edge {rest : List Char} (h : Ends rest) :
  Ends (layout.edge level rest)
  := by
  cases layout with
  | multiLine =>
    rintro c ⟨⟩
    exact .inl rfl
  | singleLine => exact h

theorem ends_separator (rest : List Char) :
  Ends (layout.separator level rest)
  := by
  cases layout <;> (rintro c ⟨⟩; exact .inr (.inl rfl))

/-- A closing bracket is not taken for a further entry. -/
theorem edge_ne_separator {c : Char} {rest rest' : List Char} {level' : Nat} (hc : c ≠ ',') :
  layout.edge level (c :: rest) ≠ layout.separator level' rest'
  := by
  cases layout with
  | multiLine =>
    intro h
    cases h
  | singleLine =>
    intro h
    exact hc (List.cons.inj h).1

/-- A container that has entries is not taken for an empty one. -/
theorem edge_ne_blank {cs rest : List Char} (h : ∀ c ∈ cs.head?, c ≠ ' ') :
  layout.edge level cs ≠ ' ' :: rest
  := by
  cases layout with
  | multiLine =>
    intro heq
    cases heq
  | singleLine =>
    rintro rfl
    exact h ' ' rfl rfl

end Layout

/-! ### Documents -/

/-- The kind of document that begins with a character. -/
def kindOf (c : Char) : Nat :=
  if c = 'n' then 0
  else if c = 't' then 1
  else if c = 'f' then 2
  else if c = '"' then 3
  else if c = '[' then 4
  else if c = '\x7b' then 5
  else if startsNumber c then 6
  else 7

/-- The kind of a document, which is that of the first character of its text. -/
def Document.kind : Document → Nat
  | .null => 0
  | .bool true => 1
  | .bool false => 2
  | .string _ => 3
  | .array _ => 4
  | .object _ => 5
  | .number _ => 6

theorem kindOf_of_startsNumber {c : Char} (h : startsNumber c = true) :
  kindOf c = 6
  := by
  have other : ∀ d, startsNumber d = false → c ≠ d := by
    rintro d hd rfl
    rw [h] at hd
    cases hd
  rw [kindOf, if_neg (other 'n' rfl), if_neg (other 't' rfl), if_neg (other 'f' rfl),
    if_neg (other '"' rfl), if_neg (other '[' rfl), if_neg (other '\x7b' rfl), if_pos h]

/-- Where the plain characters end is seen from the outside. -/
theorem append_inj_of_plain {cs cs' rest rest' : List Char} (h : ∀ c ∈ cs, isPlain c = true)
    (h' : ∀ c ∈ cs', isPlain c = true) (ends : ∀ c ∈ rest.head?, isPlain c = false)
    (ends' : ∀ c ∈ rest'.head?, isPlain c = false) (heq : cs ++ rest = cs' ++ rest') :
  cs = cs' ∧ rest = rest'
  := by
  induction cs generalizing cs' with
  | nil =>
    cases cs' with
    | nil => exact ⟨rfl, heq⟩
    | cons c cs' =>
      rw [List.nil_append] at heq
      have := ends c (by rw [heq]; rfl)
      rw [h' c List.mem_cons_self] at this
      cases this
  | cons c cs ih =>
    cases cs' with
    | nil =>
      rw [List.nil_append] at heq
      have := ends' c (by rw [← heq]; rfl)
      rw [h c List.mem_cons_self] at this
      cases this
    | cons c' cs' =>
      obtain ⟨rfl, others⟩ := List.cons.inj heq
      obtain ⟨rfl, hrest⟩ := ih (fun c hc => h c (List.mem_cons_of_mem _ hc))
        (fun c hc => h' c (List.mem_cons_of_mem _ hc)) others
      exact ⟨rfl, hrest⟩

/-- What follows a document does not belong to the text of a number. -/
theorem Grammar.Ends.not_plain {rest : List Char} (h : Ends rest) :
  ∀ c ∈ rest.head?, isPlain c = false
  := by
  intro c hc
  obtain hblank | rfl | rfl | rfl := h c hc
  · simp only [Json.isBlank, Bool.or_eq_true, beq_iff_eq] at hblank
    obtain ((rfl | rfl) | rfl) | rfl := hblank <;> rfl
  all_goals rfl

namespace Document

variable {P : Number → Prop} {layout : Layout}

/-- Numbers that can be told from their texts. -/
structure Legible (P : Number → Prop) : Prop where
  number : ∀ x, P x → x.isNaN = false
  unique : ∀ x y, P x → P y → numberText x = numberText y → x = y

/-- The first character of a text tells of which kind the document is. -/
theorem exists_write (legible : Legible P) (level : Nat) (rest : List Char) (d : Document)
    (h : ∀ x ∈ d.numbers, P x) :
  ∃ c cs, d.write layout level rest = c :: cs ∧ kindOf c = d.kind
  := by
  match d with
  | .null => exact ⟨'n', _, rfl, rfl⟩
  | .bool true => exact ⟨'t', _, rfl, rfl⟩
  | .bool false => exact ⟨'f', _, rfl, rfl⟩
  | .string s => exact ⟨'"', _, by rw [write, Text.toList_quoted_append], rfl⟩
  | .array [] => exact ⟨'[', _, rfl, rfl⟩
  | .array (_ :: _) => exact ⟨'[', _, rfl, rfl⟩
  | .object [] => exact ⟨'\x7b', _, rfl, rfl⟩
  | .object (_ :: _) => exact ⟨'\x7b', _, rfl, rfl⟩
  | .number x =>
    obtain ⟨⟨c, cs, heq, hc⟩, -⟩ := Number.text_plain (legible.number x (h x List.mem_cons_self))
    exact ⟨c, cs ++ rest, by rw [write, heq]; rfl, kindOf_of_startsNumber hc⟩

/-- Documents with one text are of one kind. -/
theorem kind_eq (legible : Legible P) {level : Nat} {rest rest' : List Char} {d e : Document}
    (hd : ∀ x ∈ d.numbers, P x) (he : ∀ x ∈ e.numbers, P x)
    (heq : d.write layout level rest = e.write layout level rest') :
  d.kind = e.kind
  := by
  obtain ⟨c, cs, hwrite, hc⟩ := exists_write legible level rest d hd
  obtain ⟨c', cs', hwrite', hc'⟩ := exists_write legible level rest' e he
  rw [hwrite, hwrite'] at heq
  rw [← hc, ← hc', (List.cons.inj heq).1]

theorem ends_writeElements (level : Nat) (c : Char) (hc : Ends [c]) (rest : List Char)
    (ds : List Document) :
  Ends (writeElements layout level (layout.edge level (c :: rest)) ds)
  := by
  cases ds with
  | nil => exact layout.ends_edge level hc
  | cons d ds => exact layout.ends_separator _ _

theorem ends_writeFields (level : Nat) (c : Char) (hc : Ends [c]) (rest : List Char)
    (fields : List (String × Document)) :
  Ends (writeFields layout level (layout.edge level (c :: rest)) fields)
  := by
  cases fields with
  | nil => exact layout.ends_edge level hc
  | cons field fields => exact layout.ends_separator _ _

/-- A quoted key can be told from its text. -/
theorem quoted_inj {key key' : String} {rest rest' : List Char}
    (h : (Text.quoted key).toList ++ rest = (Text.quoted key').toList ++ rest') :
  key = key' ∧ rest = rest'
  := by
  rw [Text.toList_quoted_append, Text.toList_quoted_append] at h
  have body := Text.body_quoted key.toList rest
  rw [(List.cons.inj h).2] at body
  obtain ⟨hkey, hrest⟩ := body.unique (Text.body_quoted key'.toList rest')
  exact ⟨String.toList_inj.mp hkey, hrest⟩

/-- The first character of a document is no blank. -/
theorem not_blank_of_write (legible : Legible P) {level : Nat} {rest : List Char} {d : Document}
    (h : ∀ x ∈ d.numbers, P x) :
  ∀ c ∈ (d.write layout level rest).head?, c ≠ ' '
  := by
  obtain ⟨c, cs, heq, hc⟩ : ∃ c cs, d.write layout level rest = c :: cs ∧ kindOf c = d.kind :=
    exists_write legible level rest d h
  rw [heq]
  rintro _ ⟨⟩ rfl
  cases d with
  | bool b => cases b <;> cases hc
  | _ => cases hc

mutual

/-- A document can be told from its text, whatever follows. -/
theorem write_inj (legible : Legible P) (level : Nat) : ∀ (d e : Document) {rest rest' : List Char},
    (∀ x ∈ d.numbers, P x) → (∀ x ∈ e.numbers, P x) → Ends rest → Ends rest' →
    d.write layout level rest = e.write layout level rest' →
  d = e ∧ rest = rest'
  | d, e, rest, rest', hd, he, ends, ends', heq => by
    have kind := kind_eq legible hd he heq
    match d, e, kind with
    | .null, .null, _ =>
      simp only [write, List.cons.injEq, true_and] at heq
      exact ⟨rfl, heq⟩
    | .bool true, .bool true, _ =>
      simp only [write, List.cons.injEq, true_and] at heq
      exact ⟨rfl, heq⟩
    | .bool false, .bool false, _ =>
      simp only [write, List.cons.injEq, true_and] at heq
      exact ⟨rfl, heq⟩
    | .string s, .string t, _ =>
      rw [write, write] at heq
      exact (quoted_inj heq).imp_left (congrArg _)
    | .number x, .number y, _ =>
      have hx := hd x List.mem_cons_self
      have hy := he y List.mem_cons_self
      rw [write, write] at heq
      obtain ⟨htext, hrest⟩ := append_inj_of_plain (Number.text_plain (legible.number x hx)).2
        (Number.text_plain (legible.number y hy)).2 ends.not_plain ends'.not_plain heq
      exact ⟨congrArg _ (legible.unique x y hx hy (String.toList_inj.mp htext)), hrest⟩
    | .array [], .array [], _ =>
      simp only [write, List.cons.injEq, true_and] at heq
      exact ⟨rfl, heq⟩
    | .array [], .array (e :: es), _ =>
      rw [write, write] at heq
      have heq := (List.cons.inj heq).2.symm
      refine absurd heq (layout.edge_ne_blank _ (not_blank_of_write legible ?_))
      exact fun x hx => he x (List.mem_append_left _ hx)
    | .array (d :: ds), .array [], _ =>
      rw [write, write] at heq
      refine absurd (List.cons.inj heq).2 (layout.edge_ne_blank _ (not_blank_of_write legible ?_))
      exact fun x hx => hd x (List.mem_append_left _ hx)
    | .array (d :: ds), .array (e :: es), _ =>
      rw [write, write] at heq
      have heq := layout.edge_inj _ (List.cons.inj heq).2
      have bracket : Ends [']'] := by
        rintro c ⟨⟩
        exact .inr (.inr (.inl rfl))
      obtain ⟨rfl, others⟩ := write_inj legible (level + 1) d e
        (fun x hx => hd x (List.mem_append_left _ hx)) (fun x hx => he x (List.mem_append_left _ hx))
        (ends_writeElements level _ bracket rest ds) (ends_writeElements level _ bracket rest' es) heq
      obtain ⟨rfl, hrest⟩ := writeElements_inj legible level ds es
        (fun x hx => hd x (List.mem_append_right _ hx))
        (fun x hx => he x (List.mem_append_right _ hx)) others
      exact ⟨rfl, hrest⟩
    | .object [], .object [], _ =>
      simp only [write, List.cons.injEq, true_and] at heq
      exact ⟨rfl, heq⟩
    | .object [], .object ((key, e) :: es), _ =>
      rw [write, write] at heq
      refine absurd (List.cons.inj heq).2.symm (layout.edge_ne_blank _ ?_)
      rw [Text.toList_quoted_append]
      rintro _ ⟨⟩ ⟨⟩
    | .object ((key, d) :: ds), .object [], _ =>
      rw [write, write] at heq
      refine absurd (List.cons.inj heq).2 (layout.edge_ne_blank _ ?_)
      rw [Text.toList_quoted_append]
      rintro _ ⟨⟩ ⟨⟩
    | .object ((key, d) :: ds), .object ((key', e) :: es), _ =>
      rw [write, write] at heq
      have brace : Ends ['\x7d'] := by
        rintro c ⟨⟩
        exact .inr (.inr (.inr rfl))
      obtain ⟨rfl, values⟩ := quoted_inj (layout.edge_inj _ (List.cons.inj heq).2)
      have values := (List.cons.inj (List.cons.inj values).2).2
      obtain ⟨rfl, others⟩ := write_inj legible (level + 1) d e
        (fun x hx => hd x (List.mem_append_left _ hx)) (fun x hx => he x (List.mem_append_left _ hx))
        (ends_writeFields level _ brace rest ds) (ends_writeFields level _ brace rest' es) values
      obtain ⟨rfl, hrest⟩ := writeFields_inj legible level ds es
        (fun x hx => hd x (List.mem_append_right _ hx))
        (fun x hx => he x (List.mem_append_right _ hx)) others
      exact ⟨rfl, hrest⟩

theorem writeElements_inj (legible : Legible P) (level : Nat) : ∀ (ds es : List Document)
    {rest rest' : List Char},
    (∀ x ∈ numbersOfElements ds, P x) → (∀ x ∈ numbersOfElements es, P x) →
    writeElements layout level (layout.edge level (']' :: rest)) ds
      = writeElements layout level (layout.edge level (']' :: rest')) es →
  ds = es ∧ rest = rest'
  | [], [], _, _, _, _, heq => ⟨rfl, (List.cons.inj (layout.edge_inj level heq)).2⟩
  | [], _ :: _, _, _, _, _, heq => absurd heq (layout.edge_ne_separator level (by decide))
  | _ :: _, [], _, _, _, _, heq => absurd heq.symm (layout.edge_ne_separator level (by decide))
  | d :: ds, e :: es, rest, rest', hd, he, heq => by
    rw [writeElements, writeElements] at heq
    have bracket : Ends [']'] := by
      rintro c ⟨⟩
      exact .inr (.inr (.inl rfl))
    obtain ⟨rfl, others⟩ := write_inj legible (level + 1) d e
      (fun x hx => hd x (List.mem_append_left _ hx)) (fun x hx => he x (List.mem_append_left _ hx))
      (ends_writeElements level _ bracket rest ds) (ends_writeElements level _ bracket rest' es)
      (layout.separator_inj _ heq)
    obtain ⟨rfl, hrest⟩ := writeElements_inj legible level ds es
      (fun x hx => hd x (List.mem_append_right _ hx))
      (fun x hx => he x (List.mem_append_right _ hx)) others
    exact ⟨rfl, hrest⟩

theorem writeFields_inj (legible : Legible P) (level : Nat) : ∀ (ds es : List (String × Document))
    {rest rest' : List Char},
    (∀ x ∈ numbersOfFields ds, P x) → (∀ x ∈ numbersOfFields es, P x) →
    writeFields layout level (layout.edge level ('\x7d' :: rest)) ds
      = writeFields layout level (layout.edge level ('\x7d' :: rest')) es →
  ds = es ∧ rest = rest'
  | [], [], _, _, _, _, heq => ⟨rfl, (List.cons.inj (layout.edge_inj level heq)).2⟩
  | [], _ :: _, _, _, _, _, heq => absurd heq (layout.edge_ne_separator level (by decide))
  | _ :: _, [], _, _, _, _, heq => absurd heq.symm (layout.edge_ne_separator level (by decide))
  | (key, d) :: ds, (key', e) :: es, rest, rest', hd, he, heq => by
    rw [writeFields, writeFields] at heq
    have brace : Ends ['\x7d'] := by
      rintro c ⟨⟩
      exact .inr (.inr (.inr rfl))
    obtain ⟨rfl, values⟩ := quoted_inj (layout.separator_inj _ heq)
    have values := (List.cons.inj (List.cons.inj values).2).2
    obtain ⟨rfl, others⟩ := write_inj legible (level + 1) d e
      (fun x hx => hd x (List.mem_append_left _ hx)) (fun x hx => he x (List.mem_append_left _ hx))
      (ends_writeFields level _ brace rest ds) (ends_writeFields level _ brace rest' es) values
    obtain ⟨rfl, hrest⟩ := writeFields_inj legible level ds es
      (fun x hx => hd x (List.mem_append_right _ hx))
      (fun x hx => he x (List.mem_append_right _ hx)) others
    exact ⟨rfl, hrest⟩

end

end Document

end Jsonnet
