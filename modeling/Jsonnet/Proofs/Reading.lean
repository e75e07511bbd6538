import Jsonnet.Proofs.Collapsing
import Jsonnet.Proofs.Numerals

/-!
# What is read is JSON

The reader accepts texts of the grammar only. What it makes of a text is the document that the
text stands for, with the fields of every object ordered by their keys and only the last one of
those with one key.
-/

namespace Jsonnet

open Jsonnet.Grammar

/-! ### Blanks before entries -/

theorem Grammar.Blanks.trans {cs cs' rest : List Char} (h : Blanks cs cs') (h' : Blanks cs' rest) :
  Blanks cs rest
  := by
  induction h with
  | none => exact h'
  | more blank _ ih => exact .more blank (ih h')

/-- Elements with blanks before them. -/
theorem Grammar.Elements.after {number : List Char → Number} {cs cs' rest : List Char}
    {elements : List Document} (h : Elements number cs' elements rest) (blanks : Blanks cs cs') :
  Elements number cs elements rest
  := by
  cases h with
  | last value =>
    obtain ⟨before, value, after⟩ := value
    exact .last ⟨blanks.trans before, value, after⟩
  | more value others =>
    obtain ⟨before, value, after⟩ := value
    exact .more ⟨blanks.trans before, value, after⟩ others

/-- Members with blanks before them. -/
theorem Grammar.Members.after {number : List Char → Number} {cs cs' rest : List Char}
    {fields : List (String × Document)} (h : Members number cs' fields rest)
    (blanks : Blanks cs cs') :
  Members number cs fields rest
  := by
  cases h with
  | last name value =>
    obtain ⟨before, body, after⟩ := name
    exact .last ⟨blanks.trans before, body, after⟩ value
  | more name value others =>
    obtain ⟨before, body, after⟩ := name
    exact .more ⟨blanks.trans before, body, after⟩ value others

namespace Json

/-! ### Strings -/

/-- No unit both starts and ends a surrogate pair. -/
theorem not_trailing_of_leading {unit : Nat} (h : isLeading unit = true) :
  isTrailing unit = false
  := by
  simp only [isLeading, isTrailing, Bool.and_eq_true, Bool.and_eq_false_iff, decide_eq_true_eq,
    decide_eq_false_iff_not] at h ⊢
  omega

/-- A string that is read is one of the grammar. -/
theorem body_of_readString {done cs rest : List Char} {s : String}
    (h : readString done cs = .ok (s, rest)) :
  ∃ chars, Body cs chars rest ∧ s = .ofList (done.reverse ++ chars)
  := by
  fun_induction readString done cs with
  | case2 done =>
    cases h
    exact ⟨[], .quote, by rw [List.append_nil]⟩
  | case7 done _ _ _ _ _ value trailing leading _ _ _ _ _ _ value' trailing' ih =>
    obtain ⟨chars, body, rfl⟩ := ih h
    exact ⟨_ :: chars, .pair value leading value' trailing' body, by simp⟩
  | case10 done _ _ _ _ _ _ value trailing leading ih =>
    obtain ⟨chars, body, rfl⟩ := ih h
    exact ⟨_ :: chars, .unit value (by simpa using leading) (by simpa using trailing) body, by simp⟩
  | case12 done _ _ _ _ _ value ih =>
    obtain ⟨chars, body, rfl⟩ := ih h
    exact ⟨_ :: chars, .escape value body, by simp⟩
  | case15 done c cs quote lone _ _ other printable ih =>
    obtain ⟨chars, body, rfl⟩ := ih h
    refine ⟨c :: chars, .plain quote ?_ (Nat.le_of_not_lt printable) body, by simp⟩
    cases cs with
    | nil => exact fun h => lone h rfl
    | cons d cs => exact fun h => other d cs h rfl
  | _ => cases h

/-- A string of the grammar is read. -/
theorem readString_of_body {done cs chars rest : List Char} (h : Body cs chars rest) :
  readString done cs = .ok (.ofList (done.reverse ++ chars), rest)
  := by
  induction h generalizing done with
  | quote => rw [readString, List.append_nil]
  | @plain c cs s rest quote backslash printable others ih =>
    rw [readString.eq_def]
    split
    case h_1 heq => cases heq
    case h_2 heq => exact absurd (List.cons.inj heq).1 quote
    case h_7 heq =>
      cases heq
      rw [if_neg (Nat.not_lt.mpr printable), ih, List.reverse_cons, List.append_assoc,
        List.singleton_append]
    all_goals
      rename_i heq
      exact absurd (List.cons.inj heq).1 backslash
  | @escape e c cs s rest value others ih =>
    have hu : e ≠ 'u' := by
      rintro rfl
      cases value
    rw [readString]
    · simp only [value, ih, List.reverse_cons, List.append_assoc, List.singleton_append]
    · exact fun _ _ _ _ _ h _ => hu h
    · exact hu
  | unit value leading trailing others ih =>
    rw [readString]
    simp [value, leading, trailing, ih]
  | pair value leading value' trailing others ih =>
    rw [readString]
    have first : isTrailing _ = false := not_trailing_of_leading leading
    simp [value, leading, value', trailing, first, ih]

/-! ### Blanks -/

theorem blanks_skipBlanks (cs : List Char) :
  Blanks cs (skipBlanks cs)
  := by
  induction cs with
  | nil => exact .none
  | cons c cs ih =>
    rw [skipBlanks, List.dropWhile_cons]
    split
    case isTrue hblank => exact .more hblank ih
    case isFalse => exact .none

theorem skipBlanks_of_blanks {cs rest : List Char} (h : Blanks cs rest) :
  skipBlanks cs = skipBlanks rest
  := by
  induction h with
  | none => rfl
  | more blank others ih =>
    rw [skipBlanks, List.dropWhile_cons, if_pos blank]
    exact ih

theorem skipBlanks_of_solid {cs : List Char} (h : Solid cs) :
  skipBlanks cs = cs
  := by
  cases cs with
  | nil => rfl
  | cons c cs => rw [skipBlanks, List.dropWhile_cons, h c rfl, if_neg Bool.false_ne_true]

/-! ### Numbers -/

/-- The number that some characters are read as. -/
def numberOf (cs : List Char) : Number :=
  match readValue 0 cs with
  | .ok (.number x, []) => x
  | _ => .zero

/-- A value that begins with a digit. -/
theorem readValue_digit {depth : Nat} {c : Char} {cs : List Char} (hc : c.isDigit = true) :
  readValue depth (c :: cs)
    = (readNumber true (c :: cs)).map fun (x, rest) => (.number x, rest)
  := by
  have solid : isBlank c = false := not_blank_of_numeric (by simp [isNumeric, hc])
  rw [readValue.eq_def, skipBlanks_of_solid (solid_cons solid cs)]
  split
  case h_1 heq => cases heq
  case h_9 heq =>
    cases heq
    rw [if_pos hc]
  all_goals
    rename_i heq
    cases heq
    cases hc

/-- A value that begins with a minus. -/
theorem readValue_minus (depth : Nat) (cs : List Char) :
  readValue depth ('-' :: cs)
    = (readNumber false cs).map fun (x, rest) => (.number x, rest)
  := by
  rw [readValue.eq_def]
  rfl

/-- A number that is read without a sign is one of the grammar. -/
theorem value_of_readNumber {cs rest : List Char} {x : Number}
    (h : readNumber true cs = .ok (x, rest)) :
  Value numberOf cs (.number x) rest
  := by
  obtain ⟨used, rfl, unsigned, hused⟩ := takes_readNumber.shape h
  have hx : numberOf used = x := by
    obtain ⟨c, used, rfl, hc⟩ := (Numeral.positive unsigned).exists_cons
    obtain hdigit | hminus : c.isDigit = true ∨ c = '-' := by simpa [isNumberStart] using hc
    · rw [numberOf, readValue_digit hdigit, hused]
      rfl
    · subst hminus
      cases hused
  have value : Value numberOf (used ++ rest) (.number (numberOf used)) rest :=
    .number (.positive unsigned)
  rw [hx] at value
  exact value

/-- A number that is read after a minus is one of the grammar. -/
theorem value_of_readNumber_minus {cs rest : List Char} {x : Number}
    (h : readNumber false cs = .ok (x, rest)) :
  Value numberOf ('-' :: cs) (.number x) rest
  := by
  obtain ⟨used, rfl, unsigned, hused⟩ := takes_readNumber.shape h
  have hx : numberOf ('-' :: used) = x := by
    rw [numberOf, readValue_minus, hused]
    rfl
  have value : Value numberOf ('-' :: used ++ rest) (.number (numberOf ('-' :: used))) rest :=
    .number (.negative unsigned)
  rw [hx] at value
  exact value

/-! ### Containers -/

/-- What a way of reading values makes of characters is a value of the grammar that is
collapsed. -/
def ReadsValues (depth : Nat) (read : List Char → Reading Document) : Prop :=
  ∀ {cs document rest}, read cs = .ok (document, rest) →
    ∃ cs' raw, Blanks cs cs' ∧ Value numberOf cs' raw rest ∧ document = raw.collapsed ∧
      raw.depth ≤ depth

section

variable {depth fuel : Nat} {read : List Char → Reading Document} {cs rest : List Char}
  {document : Document}

theorem elements_of_readElements (reads : ReadsValues depth read) {done : List Document}
    (h : readElements read done fuel cs = .ok (document, rest)) :
  ∃ elements, Elements numberOf cs elements rest ∧
    document = .array (done.reverse ++ Document.collapsedElements elements) ∧
    Document.depthOfElements elements ≤ depth
  := by
  induction fuel generalizing done cs with
  | zero => cases h
  | succ fuel ih =>
    rw [readElements] at h
    split at h
    case h_1 => cases h
    case h_2 element cs₁ hread =>
      obtain ⟨cs₀, raw, before, value, rfl, hdepth⟩ := reads hread
      have after := blanks_skipBlanks cs₁
      split at h
      case h_1 => cases h
      case h_2 heq =>
        cases h
        rw [heq] at after
        refine ⟨[raw], .last ⟨before, value, after⟩, ?_, ?_⟩
        · simp [Document.collapsedElements]
        · simpa [Document.depthOfElements] using hdepth
      case h_3 cs₂ heq =>
        rw [heq] at after
        split at h
        case h_1 => cases h
        case h_2 => cases h
        case h_3 =>
          obtain ⟨elements, inside, rfl, hdepths⟩ := ih h
          refine ⟨raw :: elements,
            .more ⟨before, value, after⟩ (inside.after (blanks_skipBlanks cs₂)), ?_, ?_⟩
          · simp [Document.collapsedElements]
          · exact Nat.max_le.mpr ⟨hdepth, hdepths⟩
      case h_4 => cases h

theorem value_of_readArray (reads : ReadsValues depth read)
    (h : readArray read cs = .ok (document, rest)) :
  ∃ raw, Value numberOf ('[' :: cs) raw rest ∧ document = raw.collapsed ∧ raw.depth ≤ depth + 1
  := by
  have before := blanks_skipBlanks cs
  rw [readArray] at h
  split at h
  case h_1 => cases h
  case h_2 heq =>
    cases h
    rw [heq] at before
    exact ⟨.array [], .emptyArray before, rfl, by simp [Document.depth, Document.depthOfElements]⟩
  case h_3 =>
    obtain ⟨elements, inside, rfl, hdepth⟩ := elements_of_readElements reads h
    exact ⟨.array elements, .array (inside.after before), rfl, Nat.succ_le_succ hdepth⟩

theorem key_of_readField (reads : ReadsValues depth read) {field : String × Document}
    (h : readField read cs = .ok (field, rest)) :
  ∃ cs' cs'' raw, Key ('"' :: cs) field.1 cs' ∧ Blanks cs' cs'' ∧ Value numberOf cs'' raw rest ∧
    field.2 = raw.collapsed ∧ raw.depth ≤ depth
  := by
  rw [readField] at h
  split at h
  case h_1 => cases h
  case h_2 key cs₁ hkey =>
    obtain ⟨chars, body, rfl⟩ := body_of_readString hkey
    have after := blanks_skipBlanks cs₁
    split at h
    case h_1 => cases h
    case h_2 cs₂ heq =>
      rw [heq] at after
      cases hread : read cs₂ with
      | error e =>
        rw [hread] at h
        cases h
      | ok result =>
        rw [hread] at h
        cases h
        obtain ⟨cs₃, raw, before, value, hraw, hdepth⟩ := reads hread
        exact ⟨cs₂, cs₃, raw, .mk .none body after, before, value, hraw, hdepth⟩
    case h_3 => cases h

theorem members_of_readFields (reads : ReadsValues depth read) {done : List (String × Document)}
    (h : readFields read done fuel cs = .ok (document, rest)) :
  ∃ fields, Members numberOf ('"' :: cs) fields rest ∧
    document = .ofFields (done.reverse ++ Document.collapsedFields fields) ∧
    Document.depthOfFields fields ≤ depth
  := by
  induction fuel generalizing done cs with
  | zero => cases h
  | succ fuel ih =>
    rw [readFields] at h
    split at h
    case h_1 => cases h
    case h_2 field cs₁ hread =>
      obtain ⟨cs', cs'', raw, name, before, value, hraw, hdepth⟩ := key_of_readField reads hread
      obtain ⟨key, _⟩ := field
      dsimp only at name hraw
      subst hraw
      have after := blanks_skipBlanks cs₁
      split at h
      case h_1 => cases h
      case h_2 heq =>
        cases h
        rw [heq] at after
        refine ⟨[(key, raw)], .last name ⟨before, value, after⟩, ?_, ?_⟩
        · simp [Document.collapsedFields]
        · simpa [Document.depthOfFields] using hdepth
      case h_3 cs₂ heq =>
        rw [heq] at after
        have between := blanks_skipBlanks cs₂
        split at h
        case h_1 => cases h
        case h_2 heq =>
          rw [heq] at between
          obtain ⟨fields, inside, rfl, hdepths⟩ := ih h
          refine ⟨(key, raw) :: fields,
            .more name ⟨before, value, after⟩ (inside.after between), ?_, ?_⟩
          · simp [Document.collapsedFields]
          · exact Nat.max_le.mpr ⟨hdepth, hdepths⟩
        case h_3 => cases h
        case h_4 => cases h
      case h_4 => cases h

theorem value_of_readObject (reads : ReadsValues depth read)
    (h : readObject read cs = .ok (document, rest)) :
  ∃ raw, Value numberOf ('\x7b' :: cs) raw rest ∧ document = raw.collapsed ∧
    raw.depth ≤ depth + 1
  := by
  have before := blanks_skipBlanks cs
  rw [readObject] at h
  split at h
  case h_1 => cases h
  case h_2 heq =>
    cases h
    rw [heq] at before
    exact ⟨.object [], .emptyObject before, rfl, by simp [Document.depth, Document.depthOfFields]⟩
  case h_3 heq =>
    rw [heq] at before
    obtain ⟨fields, inside, rfl, hdepth⟩ := members_of_readFields reads h
    exact ⟨.object fields, .object (inside.after before), rfl, Nat.succ_le_succ hdepth⟩
  case h_4 => cases h

end

/-! ### Values -/

/-- A word that is read is there. -/
theorem eq_of_readWord {document result : Document} {word cs rest : List Char}
    (h : readWord document word cs = .ok (result, rest)) :
  cs = word ++ rest ∧ result = document
  := by
  induction word generalizing cs with
  | nil =>
    cases h
    exact ⟨rfl, rfl⟩
  | cons expected word ih =>
    cases cs with
    | nil => cases h
    | cons c cs =>
      rw [readWord] at h
      split at h
      case isTrue heq =>
        subst heq
        exact (ih h).imp_left (congrArg _)
      case isFalse => cases h

/-- What is read as a value is a value of the grammar that is collapsed. -/
theorem reads_readValue (depth : Nat) :
  ReadsValues depth (readValue depth)
  := by
  induction depth using Nat.strongRecOn with
  | ind depth ih =>
  intro cs document rest h
  have before := blanks_skipBlanks cs
  rw [readValue.eq_def] at h
  split at h
  case h_1 => cases h
  case h_2 heq =>
    rw [heq] at before
    obtain ⟨rfl, rfl⟩ := eq_of_readWord h
    exact ⟨_, .null, before, .null, rfl, Nat.zero_le depth⟩
  case h_3 heq =>
    rw [heq] at before
    obtain ⟨rfl, rfl⟩ := eq_of_readWord h
    exact ⟨_, .bool true, before, .yes, rfl, Nat.zero_le depth⟩
  case h_4 heq =>
    rw [heq] at before
    obtain ⟨rfl, rfl⟩ := eq_of_readWord h
    exact ⟨_, .bool false, before, .no, rfl, Nat.zero_le depth⟩
  case h_5 digits heq =>
    rw [heq] at before
    cases hread : readNumber false digits with
    | error e =>
      rw [hread] at h
      cases h
    | ok result =>
      rw [hread] at h
      cases h
      exact ⟨_, _, before, value_of_readNumber_minus hread, rfl, Nat.zero_le depth⟩
  case h_6 chars heq =>
    rw [heq] at before
    cases hread : readString [] chars with
    | error e =>
      rw [hread] at h
      cases h
    | ok result =>
      rw [hread] at h
      cases h
      obtain ⟨chars, body, hs⟩ := body_of_readString hread
      refine ⟨_, .string _, before, .string body, ?_, Nat.zero_le depth⟩
      rw [hs]
      rfl
  case h_7 heq =>
    rw [heq] at before
    cases depth with
    | zero => cases h
    | succ depth =>
      obtain ⟨raw, value, hraw, hdepth⟩ := value_of_readArray (ih depth (Nat.lt_succ_self depth)) h
      exact ⟨_, raw, before, value, hraw, hdepth⟩
  case h_8 heq =>
    rw [heq] at before
    cases depth with
    | zero => cases h
    | succ depth =>
      obtain ⟨raw, value, hraw, hdepth⟩ := value_of_readObject (ih depth (Nat.lt_succ_self depth)) h
      exact ⟨_, raw, before, value, hraw, hdepth⟩
  case h_9 c digits _ _ _ _ _ _ _ heq =>
    rw [heq] at before
    split at h
    case isTrue hdigit =>
      cases hread : readNumber true (c :: digits) with
      | error e =>
        rw [hread] at h
        cases h
      | ok result =>
        rw [hread] at h
        cases h
        exact ⟨_, _, before, value_of_readNumber hread, rfl, Nat.zero_le depth⟩
    case isFalse => cases h

/-- A text that is read stands for a document, which is collapsed. -/
theorem text_of_readDocument {source : String} {document : Document}
    (h : readDocument source = .ok document) :
  ∃ raw, Grammar.Text numberOf source raw ∧ document = raw.collapsed ∧ raw.depth ≤ maxDepth
  := by
  rw [readDocument] at h
  split at h
  case h_1 => cases h
  case h_2 rest hread =>
    have after := blanks_skipBlanks rest
    split at h
    case h_1 heq =>
      cases h
      rw [heq] at after
      obtain ⟨cs, raw, before, value, hraw, hdepth⟩ := reads_readValue maxDepth hread
      exact ⟨raw, ⟨before, value, after⟩, hraw, hdepth⟩
    case h_2 => cases h

end Json

end Jsonnet
