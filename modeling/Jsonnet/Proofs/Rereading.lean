import Jsonnet.Proofs.Legibility
import Jsonnet.Proofs.Reading

/-!
# What is written is read back

A document that is written out in either layout is read as that document, collapsed, if it nests
no deeper than what is read may nest and its numbers are read back from their texts.
-/

namespace Jsonnet

open Jsonnet.Grammar

/-! ### Numbers -/

/-- Whether a number is read back from its text. -/
def Number.ReadsBack (x : Number) : Prop := Json.readDocument (numberText x) = .ok (.number x)

instance (x : Number) : Decidable x.ReadsBack :=
  match h : Json.readDocument (numberText x) with
  | .ok (.number y) =>
    if heq : y = x then isTrue (h.trans (by rw [heq]))
    else isFalse fun back => heq (Document.number.inj (Except.ok.inj (h.symm.trans back)))
  | .error _ => isFalse fun back => by cases h.symm.trans back
  | .ok .null | .ok (.bool _) | .ok (.string _) | .ok (.array _) | .ok (.object _) =>
    isFalse fun back => by cases h.symm.trans back

/-- The text of what is not a number. -/
theorem Number.text_of_isNaN {x : Number} (h : x.isNaN = true) :
  numberText x = "NaN"
  := by
  obtain ⟨hexponent, hfraction⟩ := isNaN_iff.mp h
  have hvalue : x.value = .nan := by simp [value, Binary64.ofBits, hexponent, hfraction]
  rw [numberText, hvalue]

/-- There is no blank in the text of a number. -/
theorem Number.text_solid (x : Number) :
  ∀ c ∈ (numberText x).toList, Json.isBlank c = false
  := by
  cases hnan : x.isNaN with
  | true =>
    have solid : "NaN".toList.all (fun c => !Json.isBlank c) = true := rfl
    intro c hc
    rw [text_of_isNaN hnan] at hc
    have := List.all_eq_true.mp solid c hc
    simpa using this
  | false =>
    intro c hc
    have hplain := (text_plain hnan).2 c hc
    by_contra hblank
    simp only [Json.isBlank, Bool.not_eq_false, Bool.or_eq_true, beq_iff_eq] at hblank
    obtain ((rfl | rfl) | rfl) | rfl := hblank <;> cases hplain

/-- Characters none of which is a blank. -/
theorem Grammar.Blanks.eq_of_solid {cs rest : List Char} (h : Blanks cs rest)
    (solid : ∀ c ∈ cs, Json.isBlank c = false) :
  cs = rest
  := by
  cases h with
  | none => rfl
  | more blank =>
    rw [solid _ List.mem_cons_self] at blank
    cases blank

/-- The text of a number that is read back is a JSON number that stands for it. -/
theorem Number.ReadsBack.denotes {x : Number} (h : x.ReadsBack) :
  Denotes Json.numberOf x
  := by
  obtain ⟨raw, ⟨before, value, after⟩, hraw, -⟩ := Json.text_of_readDocument h
  have solid := x.text_solid
  cases raw with
  | number y =>
    have hx : x = y := Document.number.inj hraw
    cases value with
    | @number cs _ numeral =>
      have htext := before.eq_of_solid solid
      have hrest := after.eq_of_solid fun c hc =>
        solid c (htext ▸ List.mem_append_right cs hc)
      rw [hrest, List.append_nil] at htext
      exact ⟨htext ▸ numeral, (congrArg _ htext).trans hx.symm⟩
  | _ => cases hraw

namespace Json

/-- What a value is read as depends only on what follows the blanks before it. -/
theorem readValue_blanks (depth : Nat) {cs cs' : List Char} (h : Blanks cs cs') :
  readValue depth cs = readValue depth cs'
  := by
  rw [readValue.eq_def, readValue.eq_def depth cs', skipBlanks_of_blanks h]

/-- A number that is read from a whole text is read in the same way before other characters. -/
theorem readNumber_append {positive : Bool} {cs rest rest' : List Char} {x : Number}
    (numeric : ∀ c ∈ cs, isNumeric c = true) (h : readNumber positive cs = .ok (x, rest'))
    (whole : skipBlanks rest' = []) (ends : Ends rest) :
  readNumber positive (cs ++ rest) = .ok (x, rest)
  := by
  obtain ⟨used, hcs, -, hused⟩ := takes_readNumber.shape h
  have solid : Solid rest' := by
    intro c hc
    apply not_blank_of_numeric (numeric c _)
    rw [hcs]
    exact List.mem_append_right used (List.mem_of_mem_head? hc)
  rw [skipBlanks_of_solid solid] at whole
  rw [whole, List.append_nil] at hcs
  subst hcs
  exact takes_readNumber.append hused ends.not_numeric

/-- A number that is read back is read back before other characters. -/
theorem readValue_numberText {x : Number} (h : x.ReadsBack) {rest : List Char} (ends : Ends rest)
    (depth : Nat) :
  readValue depth ((numberText x).toList ++ rest) = .ok (.number x, rest)
  := by
  have numeral := h.denotes.numeral
  rw [Number.ReadsBack, readDocument] at h
  generalize (numberText x).toList = cs at h numeral
  have numeric := numeral.numeric
  obtain ⟨c, cs, rfl, hc⟩ := numeral.exists_cons
  split at h
  case h_1 => cases h
  case h_2 document rest' hread =>
    split at h
    case h_2 => cases h
    case h_1 whole =>
      cases h
      obtain hdigit | rfl : c.isDigit = true ∨ c = '-' := by simpa [isNumberStart] using hc
      · rw [readValue_digit hdigit] at hread
        rw [List.cons_append, readValue_digit hdigit]
        cases hnumber : readNumber true (c :: cs) with
        | error e =>
          rw [hnumber] at hread
          cases hread
        | ok result =>
          rw [hnumber] at hread
          cases hread
          have happend := readNumber_append numeric hnumber whole ends
          rw [List.cons_append] at happend
          rw [happend]
          rfl
      · rw [readValue_minus] at hread
        rw [List.cons_append, readValue_minus]
        cases hnumber : readNumber false cs with
        | error e =>
          rw [hnumber] at hread
          cases hread
        | ok result =>
          rw [hnumber] at hread
          cases hread
          rw [readNumber_append (fun d hd => numeric d (List.mem_cons_of_mem _ hd)) hnumber whole ends]
          rfl

end Json

/-! ### What follows a text -/

namespace Document

variable (layout : Layout)

theorem edge_append (level : Nat) (rest more : List Char) :
  layout.edge level (rest ++ more) = layout.edge level rest ++ more
  := by
  cases layout <;> simp [Layout.edge, Layout.newline]

theorem separator_append (level : Nat) (rest more : List Char) :
  layout.separator level (rest ++ more) = layout.separator level rest ++ more
  := by
  cases layout <;> simp [Layout.separator, Layout.newline]

mutual

theorem write_append : ∀ (document : Document) (level : Nat) (rest more : List Char),
  write layout level (rest ++ more) document = write layout level rest document ++ more
  | .null, _, _, _ | .bool true, _, _, _ | .bool false, _, _, _ | .array [], _, _, _
  | .object [], _, _, _ => rfl
  | .number _, _, _, _ | .string _, _, _, _ => (List.append_assoc _ _ _).symm
  | .array (first :: others), level, rest, more => by
    rw [write, write, ← List.cons_append, edge_append, writeElements_append, write_append first,
      edge_append, List.cons_append]
  | .object ((key, first) :: others), level, rest, more => by
    rw [write, write, ← List.cons_append, edge_append layout level, writeFields_append, write_append first,
      ← List.cons_append, ← List.cons_append, ← List.append_assoc, edge_append, List.cons_append]

theorem writeElements_append : ∀ (others : List Document) (level : Nat) (rest more : List Char),
  writeElements layout level (rest ++ more) others = writeElements layout level rest others ++ more
  | [], _, _, _ => rfl
  | element :: others, level, rest, more => by
    rw [writeElements, writeElements, writeElements_append others, write_append element,
      separator_append]

theorem writeFields_append : ∀ (others : List (String × Document)) (level : Nat)
    (rest more : List Char),
  writeFields layout level (rest ++ more) others = writeFields layout level rest others ++ more
  | [], _, _, _ => rfl
  | (key, value) :: others, level, rest, more => by
    rw [writeFields, writeFields, writeFields_append others, write_append value,
      ← List.cons_append, ← List.cons_append, ← List.append_assoc, separator_append]

end

theorem length_write (document : Document) (level : Nat) (rest : List Char) :
  rest.length ≤ (write layout level rest document).length
  := by
  have h := write_append layout document level [] rest
  rw [List.nil_append] at h
  rw [h, List.length_append]
  exact Nat.le_add_left _ _

theorem length_separator (level : Nat) (rest : List Char) :
  rest.length < (layout.separator level rest).length
  := by
  cases layout <;>
    simp only [Layout.separator, Layout.newline, List.length_cons, List.length_append] <;> omega

/-- The text of some elements is at least as long as there are elements. -/
theorem length_writeElements (others : List Document) (level : Nat) (rest : List Char) :
  others.length + rest.length ≤ (writeElements layout level rest others).length
  := by
  induction others with
  | nil => simp [writeElements]
  | cons element others ih =>
    have hwrite := length_write layout element (level + 1) (writeElements layout level rest others)
    have hall := length_separator layout (level + 1)
      (write layout (level + 1) (writeElements layout level rest others) element)
    rw [writeElements, List.length_cons]
    omega

/-- The text of some fields is at least as long as there are fields. -/
theorem length_writeFields (others : List (String × Document)) (level : Nat) (rest : List Char) :
  others.length + rest.length ≤ (writeFields layout level rest others).length
  := by
  induction others with
  | nil => simp [writeFields]
  | cons field others ih =>
    have hwrite := length_write layout field.2 (level + 1) (writeFields layout level rest others)
    have hall := length_separator layout (level + 1) ((Text.quoted field.1).toList ++
      ':' :: ' ' :: write layout (level + 1) (writeFields layout level rest others) field.2)
    simp only [writeFields, List.length_cons, List.length_append] at hall ⊢
    omega

theorem length_edge (level : Nat) (c : Char) (rest : List Char) :
  0 < (layout.edge level (c :: rest)).length
  := by
  cases layout <;> simp [Layout.edge, Layout.newline]

end Document

/-! ### Documents -/

namespace Json

theorem readValue_quote (depth : Nat) (cs : List Char) :
  readValue depth ('"' :: cs) = (readString [] cs).map fun (s, rest) => (.string s, rest)
  := by
  rw [readValue.eq_def]
  rfl

theorem readValue_bracket (depth : Nat) (cs : List Char) :
  readValue (depth + 1) ('[' :: cs) = readArray (readValue depth) cs
  := by
  rw [readValue.eq_def]
  rfl

theorem readValue_brace (depth : Nat) (cs : List Char) :
  readValue (depth + 1) ('\x7b' :: cs) = readObject (readValue depth) cs
  := by
  rw [readValue.eq_def]
  rfl

section

variable {layout : Layout}

variable (layout) in
/-- A value that is written out begins neither with a blank nor with what closes a container. -/
theorem exists_cons_write (level : Nat) (rest : List Char) (document : Document)
    (numbers : ∀ x ∈ document.numbers, x.ReadsBack) :
  ∃ c cs, document.write layout level rest = c :: cs ∧ isBlank c = false ∧ c ≠ ']' ∧ c ≠ '\x7d'
  := (document.value_write level fun x hx => (numbers x hx).denotes).exists_cons

theorem blank_space {cs : List Char} :
  Blanks (' ' :: cs) cs
  := .more rfl .none

/-- A key that is written out is read with its value. -/
theorem readField_write {read : List Char → Reading Document} {key : String}
    {value document : Document} {level : Nat} {rest : List Char}
    (hread : read (' ' :: value.write layout level rest) = .ok (document, rest)) :
  readField read (key.toList.flatMap Text.quoteChar ++ '"' :: ':' :: ' ' ::
      value.write layout level rest)
    = .ok ((key, document), rest)
  := by
  rw [readField, readString_of_body (Text.body_quoted key.toList _)]
  simp only [List.reverse_nil, List.nil_append, String.ofList_toList]
  rw [skipBlanks_of_solid (solid_cons rfl _)]
  simp only [hread]
  rfl

/-! One step of reading a container, for what is written out. -/

section

variable {read : List Char → Reading Document} {fuel : Nat} {c : Char} {cs cs₁ cs₂ rest : List Char}

theorem readArray_cons (h : skipBlanks cs = c :: cs₁) (hc : c ≠ ']') :
  readArray read cs = readElements read [] (c :: cs₁).length (c :: cs₁)
  := by
  rw [readArray, h]
  split
  case h_1 heq => cases heq
  case h_2 heq => exact absurd (List.cons.inj heq).1 hc
  case h_3 => rfl

theorem readElements_last {done : List Document} {element : Document}
    (hread : read cs = .ok (element, cs₁)) (h : skipBlanks cs₁ = ']' :: rest) :
  readElements read done (fuel + 1) cs = .ok (.array (done.reverse ++ [element]), rest)
  := by
  rw [readElements, hread]
  simp [h]

theorem readElements_more {done : List Document} {element : Document}
    (hread : read cs = .ok (element, cs₁)) (h : skipBlanks cs₁ = ',' :: cs₂)
    (h' : skipBlanks cs₂ = c :: rest) (hc : c ≠ ']') :
  readElements read done (fuel + 1) cs = readElements read (element :: done) fuel (c :: rest)
  := by
  rw [readElements, hread]
  simp only [h, h']
  split
  case h_1 heq => cases heq
  case h_2 heq => exact absurd (List.cons.inj heq).1 hc
  case h_3 => rfl

theorem readObject_quote (h : skipBlanks cs = '"' :: cs₁) :
  readObject read cs = readFields read [] (cs₁.length + 1) cs₁
  := by
  rw [readObject, h]
  rfl

theorem readFields_last {done : List (String × Document)} {field : String × Document}
    (hread : readField read cs = .ok (field, cs₁)) (h : skipBlanks cs₁ = '\x7d' :: rest) :
  readFields read done (fuel + 1) cs = .ok (.ofFields (done.reverse ++ [field]), rest)
  := by
  rw [readFields, hread]
  simp [h]

theorem readFields_more {done : List (String × Document)} {field : String × Document}
    (hread : readField read cs = .ok (field, cs₁)) (h : skipBlanks cs₁ = ',' :: cs₂)
    (h' : skipBlanks cs₂ = '"' :: rest) :
  readFields read done (fuel + 1) cs = readFields read (field :: done) fuel rest
  := by
  rw [readFields, hread]
  simp [h, h']

end

mutual

theorem readValue_write : ∀ (document : Document) {depth level : Nat} {rest : List Char},
    document.depth ≤ depth → (∀ x ∈ document.numbers, x.ReadsBack) → Ends rest →
  readValue depth (document.write layout level rest) = .ok (document.collapsed, rest)
  | .null, _, _, _, _, _, _ | .bool true, _, _, _, _, _, _ | .bool false, _, _, _, _, _, _ => by
    rw [Document.write, readValue.eq_def]
    rfl
  | .number x, depth, _, _, _, numbers, ends =>
    readValue_numberText (numbers x List.mem_cons_self) ends depth
  | .string s, depth, _, rest, _, _, _ => by
    rw [Document.write, Text.toList_quoted_append, readValue_quote,
      readString_of_body (Text.body_quoted s.toList rest)]
    simp only [Except.map, List.reverse_nil, List.nil_append, String.ofList_toList]
    rfl
  | .array [], depth, _, _, hdepth, _, _ => by
    cases depth with
    | zero => cases hdepth
    | succ depth =>
      rw [Document.write, readValue_bracket]
      rfl
  | .array (first :: others), depth, level, rest, hdepth, numbers, _ => by
    cases depth with
    | zero => cases hdepth
    | succ depth =>
      obtain ⟨hfirst, hothers⟩ := Nat.max_le.mp (Nat.le_of_succ_le_succ hdepth)
      have numbers₁ := fun x hx => numbers x (List.mem_append_left _ hx)
      have numbers₂ := fun x hx => numbers x (List.mem_append_right _ hx)
      have hlength := Document.length_edge layout level ']' rest
      have hlength₁ := Document.length_writeElements layout others level
        (layout.edge level (']' :: rest))
      have hlength₂ := Document.length_write layout first (level + 1)
        (Document.writeElements layout level (layout.edge level (']' :: rest)) others)
      obtain ⟨c, cs, hwrite, hblank, hc, -⟩ := exists_cons_write layout (level + 1)
        (Document.writeElements layout level (layout.edge level (']' :: rest)) others) first numbers₁
      rw [Document.write, readValue_bracket]
      have hskip : skipBlanks (layout.edge (level + 1) (first.write layout (level + 1)
          (Document.writeElements layout level (layout.edge level (']' :: rest)) others)))
          = c :: cs := by
        rw [skipBlanks_of_blanks (layout.blanks_edge _ _), hwrite,
          skipBlanks_of_solid (solid_cons hblank cs)]
      rw [readArray_cons hskip hc]
      apply readElements_write others hothers numbers₂
        (fun ends => readValue_write first hfirst numbers₁ ends)
      · rw [hwrite]
        exact .none
      · rw [← hwrite]
        omega
  | .object [], depth, _, _, hdepth, _, _ => by
    cases depth with
    | zero => cases hdepth
    | succ depth =>
      rw [Document.write, readValue_brace]
      rfl
  | .object ((key, first) :: others), depth, level, rest, hdepth, numbers, _ => by
    cases depth with
    | zero => cases hdepth
    | succ depth =>
      obtain ⟨hfirst, hothers⟩ := Nat.max_le.mp (Nat.le_of_succ_le_succ hdepth)
      have numbers₁ := fun x hx => numbers x (List.mem_append_left _ hx)
      have numbers₂ := fun x hx => numbers x (List.mem_append_right _ hx)
      have hlength := Document.length_edge layout level '\x7d' rest
      have hlength₁ := Document.length_writeFields layout others level
        (layout.edge level ('\x7d' :: rest))
      have hlength₂ := Document.length_write layout first (level + 1)
        (Document.writeFields layout level (layout.edge level ('\x7d' :: rest)) others)
      rw [Document.write, readValue_brace, Text.toList_quoted_append]
      have hskip : ∀ cs, skipBlanks (layout.edge (level + 1) ('"' :: cs)) = '"' :: cs := by
        intro cs
        rw [skipBlanks_of_blanks (layout.blanks_edge _ _), skipBlanks_of_solid (solid_cons rfl cs)]
      rw [readObject_quote (hskip _)]
      apply readFields_write others hothers numbers₂
        (fun ends => readValue_write first hfirst numbers₁ ends)
      simp only [List.length_cons, List.length_append]
      omega

theorem readElements_write : ∀ (others : List Document) {first : Document} {depth level fuel : Nat}
    {done : List Document} {cs rest : List Char},
    Document.depthOfElements others ≤ depth →
    (∀ x ∈ Document.numbersOfElements others, x.ReadsBack) →
    (∀ {rest}, Ends rest → readValue depth (first.write layout (level + 1) rest)
      = .ok (first.collapsed, rest)) →
    Blanks cs (first.write layout (level + 1)
      (Document.writeElements layout level (layout.edge level (']' :: rest)) others)) →
    others.length < fuel →
  readElements (readValue depth) done fuel cs
    = .ok (.array (done.reverse ++ first.collapsed :: Document.collapsedElements others), rest)
  | [], first, depth, level, fuel + 1, done, cs, rest, _, _, hfirst, before, _ => by
    have hread := readValue_blanks depth before
    rw [hfirst (Document.ends_writeElements level ']' (by simp [Ends]) rest [])] at hread
    apply readElements_last hread
    rw [Document.writeElements, skipBlanks_of_blanks (layout.blanks_edge level _),
      skipBlanks_of_solid (solid_cons rfl _)]
  | second :: others, first, depth, level, fuel + 1, done, cs, rest, hdepth, numbers, hfirst, before,
      hfuel => by
    obtain ⟨hsecond, hothers⟩ := Nat.max_le.mp hdepth
    have numbers₁ := fun x hx => numbers x (List.mem_append_left _ hx)
    have numbers₂ := fun x hx => numbers x (List.mem_append_right _ hx)
    have hread := readValue_blanks depth before
    rw [hfirst (Document.ends_writeElements level ']' (by simp [Ends]) rest (second :: others))] at hread
    obtain ⟨c, cs₂, hwrite, hblank, hc, -⟩ := exists_cons_write layout (level + 1)
      (Document.writeElements layout level (layout.edge level (']' :: rest)) others) second numbers₁
    obtain ⟨cs₁, hseparator, blanks⟩ := layout.separator_eq (level + 1) (second.write layout (level + 1)
      (Document.writeElements layout level (layout.edge level (']' :: rest)) others))
    have hnext : skipBlanks cs₁ = c :: cs₂ := by
      rw [skipBlanks_of_blanks blanks, hwrite, skipBlanks_of_solid (solid_cons hblank cs₂)]
    rw [readElements_more hread _ hnext hc, Document.collapsedElements]
    · rw [← hwrite, readElements_write others hothers numbers₂
        (fun ends => readValue_write second hsecond numbers₁ ends) .none
        (Nat.lt_of_succ_lt_succ hfuel), List.reverse_cons, List.append_assoc, List.singleton_append]
    · rw [Document.writeElements, hseparator, skipBlanks_of_solid (solid_cons rfl cs₁)]

theorem readFields_write : ∀ (others : List (String × Document)) {key : String} {first : Document}
    {depth level fuel : Nat} {done : List (String × Document)} {rest : List Char},
    Document.depthOfFields others ≤ depth →
    (∀ x ∈ Document.numbersOfFields others, x.ReadsBack) →
    (∀ {rest}, Ends rest → readValue depth (first.write layout (level + 1) rest)
      = .ok (first.collapsed, rest)) →
    others.length < fuel →
  readFields (readValue depth) done fuel (key.toList.flatMap Text.quoteChar ++ '"' :: ':' :: ' ' ::
      first.write layout (level + 1)
        (Document.writeFields layout level (layout.edge level ('\x7d' :: rest)) others))
    = .ok (.ofFields (done.reverse ++ (key, first.collapsed) :: Document.collapsedFields others), rest)
  | [], key, first, depth, level, fuel + 1, done, rest, _, _, hfirst, _ => by
    have ends : Ends (Document.writeFields layout level (layout.edge level ('\x7d' :: rest)) []) :=
      Document.ends_writeFields level '\x7d' (by simp [Ends]) rest []
    have hread := hfirst ends
    rw [← readValue_blanks depth blank_space] at hread
    apply readFields_last (readField_write hread)
    rw [Document.writeFields, skipBlanks_of_blanks (layout.blanks_edge level _),
      skipBlanks_of_solid (solid_cons rfl _)]
  | (key', second) :: others, key, first, depth, level, fuel + 1, done, rest, hdepth, numbers, hfirst,
      hfuel => by
    obtain ⟨hsecond, hothers⟩ := Nat.max_le.mp hdepth
    have numbers₁ := fun x hx => numbers x (List.mem_append_left _ hx)
    have numbers₂ := fun x hx => numbers x (List.mem_append_right _ hx)
    have ends : Ends (Document.writeFields layout level (layout.edge level ('\x7d' :: rest))
        ((key', second) :: others)) :=
      Document.ends_writeFields level '\x7d' (by simp [Ends]) rest _
    have hread := hfirst ends
    rw [← readValue_blanks depth blank_space] at hread
    obtain ⟨cs₁, hseparator, blanks⟩ := layout.separator_eq (level + 1)
      ((Text.quoted key').toList ++ ':' :: ' ' :: second.write layout (level + 1)
        (Document.writeFields layout level (layout.edge level ('\x7d' :: rest)) others))
    rw [Text.toList_quoted_append] at blanks
    have hnext := (skipBlanks_of_blanks blanks).trans (skipBlanks_of_solid (solid_cons rfl _))
    rw [readFields_more (readField_write hread) _ hnext, Document.collapsedFields]
    · rw [readFields_write others hothers numbers₂
        (fun ends => readValue_write second hsecond numbers₁ ends) (Nat.lt_of_succ_lt_succ hfuel), List.reverse_cons, List.append_assoc, List.singleton_append]
    · rw [Document.writeFields, hseparator, skipBlanks_of_solid (solid_cons rfl cs₁)]

end

end

end Json

end Jsonnet
