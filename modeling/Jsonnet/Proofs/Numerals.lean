import Jsonnet.Proofs.Grammar

/-!
# Numbers are read by their grammar

What is read as a number is a number of the grammar, and it is read in the same way wherever it
stands.
-/

namespace Jsonnet.Json

open Jsonnet.Grammar (Digits Whole Fraction Exponent Unsigned Numeral isNumeric)

/-- Characters with which no number goes on. -/
def Stops (rest : List Char) : Prop := ∀ c ∈ rest.head?, isNumeric c = false

/-- A way of reading takes characters of one kind. What it takes it reads in the same way before
any other characters with which no number goes on. -/
structure Takes {α : Type} (P : List Char → Prop) (read : List Char → Reading α) : Prop where
  shape : ∀ {cs rest : List Char} {x : α}, read cs = .ok (x, rest) →
    ∃ used, cs = used ++ rest ∧ P used ∧ read used = .ok (x, [])
  append : ∀ {used rest : List Char} {x : α}, read used = .ok (x, []) → Stops rest →
    read (used ++ rest) = .ok (x, rest)

/-- Digits, possibly none. -/
def AllDigits (cs : List Char) : Prop := ∀ c ∈ cs, c.isDigit = true

theorem AllDigits.nil :
  AllDigits []
  := by simp [AllDigits]

theorem AllDigits.cons {c : Char} {cs : List Char} (hc : c.isDigit = true) (h : AllDigits cs) :
  AllDigits (c :: cs)
  := by
  intro d hd
  obtain rfl | hd := List.mem_cons.mp hd
  · exact hc
  · exact h d hd

theorem AllDigits.digits {c : Char} {cs : List Char} (hc : c.isDigit = true) (h : AllDigits cs) :
  Digits (c :: cs)
  := ⟨by simp, h.cons hc⟩

/-- Characters of which the first is no digit. -/
def NoDigit (cs : List Char) : Prop := ∀ c ∈ cs.head?, c.isDigit = false

theorem Stops.noDigit {cs : List Char} (h : Stops cs) :
  NoDigit cs
  := by
  intro c hc
  by_contra hdigit
  rw [Bool.not_eq_false] at hdigit
  have hnumeric := h c hc
  simp [isNumeric, hdigit] at hnumeric

theorem Stops.ne {c d : Char} {cs : List Char} (h : Stops (c :: cs)) (hd : isNumeric d = true) :
  c ≠ d
  := by
  rintro rfl
  rw [h c rfl] at hd
  cases hd

/-! ### Digits -/

/-- The digits that are skipped, and what follows them. -/
theorem skipDigits_shape (cs : List Char) :
  ∃ used, cs = used ++ skipDigits cs ∧ AllDigits used ∧ skipDigits used = []
  := by
  induction cs with
  | nil => exact ⟨[], rfl, .nil, rfl⟩
  | cons c cs ih =>
    cases hdigit : c.isDigit with
    | true =>
      obtain ⟨used, hcs, hdigits, hskip⟩ := ih
      refine ⟨c :: used, ?_, hdigits.cons hdigit, ?_⟩
      · simpa [skipDigits, hdigit] using hcs
      · simpa [skipDigits, hdigit] using hskip
    | false => exact ⟨[], by simp [skipDigits, hdigit], .nil, rfl⟩

/-- Only the digits at the beginning are skipped. -/
theorem skipDigits_append {cs rest : List Char} (ends : NoDigit rest) :
  skipDigits (cs ++ rest) = skipDigits cs ++ rest
  := by
  induction cs with
  | nil =>
    cases rest with
    | nil => rfl
    | cons c rest => simp [skipDigits, ends c rfl]
  | cons c cs ih =>
    simp only [skipDigits, List.cons_append, List.dropWhile_cons] at ih ⊢
    split
    case isTrue => exact ih
    case isFalse => rfl

/-! ### Exponents -/

section

variable {positive positiveExponent : Bool} {significand : Nat} {start exponent : Int}

/-- Only a sign, a significand and an exponent make a number. -/
theorem ofParts_ok {rest rest' : List Char} {x : Number}
    (h : ofParts positive significand exponent rest = .ok (x, rest')) :
  rest' = rest ∧ ∀ other, ofParts positive significand exponent other = .ok (x, other)
  := by
  rw [ofParts] at h
  split at h
  case h_1 y hscale =>
    cases h
    refine ⟨rfl, fun other => ?_⟩
    rw [ofParts, hscale]
  case h_2 => cases h

theorem takes_exponentDigits (digits : Nat) :
  Takes AllDigits (exponentDigits positive positiveExponent significand start digits)
  := by
  constructor
  · intro cs rest x h
    induction cs generalizing digits with
    | nil =>
      obtain ⟨rfl, -⟩ := ofParts_ok h
      exact ⟨[], rfl, .nil, h⟩
    | cons c cs ih =>
      simp only [exponentDigits] at h
      split at h
      case isTrue hdigit =>
        split at h
        case isTrue hle =>
          obtain ⟨used, rfl, hdigits, hused⟩ := ih _ h
          refine ⟨c :: used, rfl, hdigits.cons hdigit, ?_⟩
          simpa only [exponentDigits, hdigit, hle, if_true] using hused
        case isFalse hlarge =>
          split at h
          case isTrue => cases h
          case isFalse hzero =>
            cases h
            obtain ⟨used, hcs, hdigits, hskip⟩ := skipDigits_shape cs
            refine ⟨c :: used, congrArg (c :: ·) hcs, hdigits.cons hdigit, ?_⟩
            simp only [exponentDigits, hdigit, hlarge, hzero, hskip, if_true, if_false]
            rfl
      case isFalse hdigit =>
        obtain ⟨rfl, hother⟩ := ofParts_ok h
        exact ⟨[], rfl, .nil, hother []⟩
  · intro used rest x h stops
    induction used generalizing digits with
    | nil =>
      obtain ⟨-, hother⟩ := ofParts_ok h
      cases rest with
      | nil => exact h
      | cons c rest =>
        simp only [List.nil_append, exponentDigits, stops.noDigit c rfl]
        exact hother _
    | cons c used ih =>
      simp only [exponentDigits] at h
      rw [List.cons_append]
      simp only [exponentDigits]
      split at h
      case isTrue hdigit =>
        rw [if_pos hdigit]
        split at h
        case isTrue hle =>
          rw [if_pos hle]
          exact ih _ h
        case isFalse hlarge =>
          rw [if_neg hlarge]
          split at h
          case isTrue => cases h
          case isFalse hzero =>
            rw [if_neg hzero]
            simp only [Except.ok.injEq, Prod.mk.injEq] at h
            rw [skipDigits_append stops.noDigit, h.1, h.2, List.nil_append]
      case isFalse =>
        obtain ⟨hnil, -⟩ := ofParts_ok h
        cases hnil

theorem takes_exponentStart :
  Takes Digits (exponentStart positive positiveExponent significand start)
  := by
  constructor
  · intro cs rest x h
    cases cs with
    | nil => cases h
    | cons c cs =>
      simp only [exponentStart] at h
      split at h
      case isTrue hdigit =>
        obtain ⟨used, rfl, hdigits, hused⟩ := (takes_exponentDigits _).shape h
        refine ⟨c :: used, rfl, hdigits.digits hdigit, ?_⟩
        simpa only [exponentStart, hdigit, if_true] using hused
      case isFalse => cases h
  · intro used rest x h stops
    cases used with
    | nil => cases h
    | cons c used =>
      simp only [exponentStart] at h
      simp only [List.cons_append, exponentStart]
      split at h
      case isTrue hdigit =>
        rw [if_pos hdigit]
        exact (takes_exponentDigits _).append h stops
      case isFalse => cases h

/-- Digits are no sign. -/
theorem exponentPart_digits {cs : List Char} (h : Digits cs) :
  exponentPart positive significand start cs
    = exponentStart positive true significand start cs
  := by
  obtain ⟨c, cs, rfl⟩ := List.exists_cons_of_ne_nil h.nonempty
  have hc := h.digit c List.mem_cons_self
  rw [exponentPart.eq_def]
  split
  case h_1 heq =>
    cases heq
    cases hc
  case h_2 heq =>
    cases heq
    cases hc
  case h_3 => rfl

theorem takes_exponentPart :
  Takes (fun cs => ∀ mark, mark = 'e' ∨ mark = 'E' → Exponent (mark :: cs))
    (exponentPart positive significand start)
  := by
  constructor
  · intro cs rest x h
    rw [exponentPart.eq_def] at h
    split at h
    case h_1 =>
      obtain ⟨used, rfl, digits, hused⟩ := takes_exponentStart.shape h
      exact ⟨'+' :: used, rfl, fun _ mark => .signed mark (.inl rfl) digits, hused⟩
    case h_2 =>
      obtain ⟨used, rfl, digits, hused⟩ := takes_exponentStart.shape h
      exact ⟨'-' :: used, rfl, fun _ mark => .signed mark (.inr rfl) digits, hused⟩
    case h_3 =>
      obtain ⟨used, rfl, digits, hused⟩ := takes_exponentStart.shape h
      exact ⟨used, rfl, fun _ mark => .plain mark digits, (exponentPart_digits digits).trans hused⟩
  · intro used rest x h stops
    rw [exponentPart.eq_def] at h
    split at h
    case h_1 => exact takes_exponentStart.append h stops
    case h_2 => exact takes_exponentStart.append h stops
    case h_3 =>
      obtain ⟨used', heq, digits, -⟩ := takes_exponentStart.shape h
      rw [List.append_nil] at heq
      subst heq
      have digits' : (used ++ rest).head?.all Char.isDigit = true := by
        obtain ⟨c, cs, rfl⟩ := List.exists_cons_of_ne_nil digits.nonempty
        exact digits.digit c List.mem_cons_self
      have happend := takes_exponentStart.append h stops
      rw [exponentPart.eq_def]
      split
      case h_1 heq => simp [heq] at digits'
      case h_2 heq => simp [heq] at digits'
      case h_3 => exact happend

/-- What is no exponent ends a number. -/
theorem numberEnd_stops {rest : List Char} (stops : Stops rest) :
  numberEnd positive significand exponent rest = ofParts positive significand exponent rest
  := by
  rw [numberEnd.eq_def]
  split
  case h_1 => exact absurd rfl (stops.ne rfl)
  case h_2 => exact absurd rfl (stops.ne rfl)
  case h_3 => rfl

theorem takes_numberEnd :
  Takes Exponent (numberEnd positive significand exponent)
  := by
  constructor
  · intro cs rest x h
    rw [numberEnd.eq_def] at h
    split at h
    case h_1 =>
      obtain ⟨used, rfl, hexponent, hused⟩ := takes_exponentPart.shape h
      exact ⟨'e' :: used, rfl, hexponent _ (.inl rfl), hused⟩
    case h_2 =>
      obtain ⟨used, rfl, hexponent, hused⟩ := takes_exponentPart.shape h
      exact ⟨'E' :: used, rfl, hexponent _ (.inr rfl), hused⟩
    case h_3 =>
      obtain ⟨rfl, hother⟩ := ofParts_ok h
      exact ⟨[], rfl, .none, hother []⟩
  · intro used rest x h stops
    rw [numberEnd.eq_def] at h
    split at h
    case h_1 => exact takes_exponentPart.append h stops
    case h_2 => exact takes_exponentPart.append h stops
    case h_3 =>
      obtain ⟨rfl, hother⟩ := ofParts_ok h
      exact (numberEnd_stops stops).trans (hother rest)

end

/-! ### Fractions -/

theorem noDigit_of_exponent {cs : List Char} (h : Exponent cs) :
  NoDigit cs
  := by
  cases h with
  | none => simp [NoDigit]
  | plain mark | signed mark =>
    rintro _ ⟨⟩
    obtain rfl | rfl := mark <;> rfl

/-- Digits and then an exponent, if there is one. There is a digit if none has been taken
before. -/
def Decimals (taken : Nat) (cs : List Char) : Prop :=
  ∃ digits exponent, cs = digits ++ exponent ∧ AllDigits digits ∧ (taken = 0 → digits ≠ []) ∧
    Exponent exponent

/-- A point with digits and then an exponent, each if there is one. -/
def Rest (cs : List Char) : Prop :=
  ∃ fraction exponent, cs = fraction ++ exponent ∧ Fraction fraction ∧ Exponent exponent

theorem Rest.of_decimals {cs : List Char} (h : Decimals 0 cs) :
  Rest ('.' :: cs)
  := by
  obtain ⟨digits, exponent, rfl, hdigits, hne, hexponent⟩ := h
  exact ⟨'.' :: digits, exponent, rfl, .point ⟨hne rfl, hdigits⟩, hexponent⟩

theorem Rest.of_exponent {cs : List Char} (h : Exponent cs) :
  Rest cs
  := ⟨[], cs, rfl, .none, h⟩

theorem Rest.noDigit {cs : List Char} (h : Rest cs) :
  NoDigit cs
  := by
  obtain ⟨fraction, exponent, rfl, hfraction, hexponent⟩ := h
  cases hfraction with
  | none => exact noDigit_of_exponent hexponent
  | point =>
    rintro _ ⟨⟩
    rfl

section

variable {positive : Bool} {significand : Nat}

theorem fractionDigits_noDigit {exponent : Int} {taken : Nat} {cs : List Char} (h : NoDigit cs) :
  fractionDigits positive significand exponent taken cs
    = fractionDigits.finish positive significand exponent taken cs
  := by
  cases cs with
  | nil => rfl
  | cons c cs => simp [fractionDigits, h c rfl]

/-- The end of the digits after a point. -/
theorem fractionDigits_finish {exponent : Int} {taken : Nat} {cs rest : List Char} {x : Number}
    (h : fractionDigits.finish positive significand exponent taken cs = .ok (x, rest)) :
  taken ≠ 0 ∧ ∀ other, fractionDigits.finish positive significand exponent taken other
    = numberEnd positive significand (exponent - taken) other
  := by
  rw [fractionDigits.finish] at h
  split at h
  case isTrue => split at h <;> cases h
  case isFalse htaken =>
    refine ⟨htaken, fun other => ?_⟩
    rw [fractionDigits.finish, if_neg htaken]

theorem takes_fractionDigits (exponent : Int) (taken : Nat) :
  Takes (Decimals taken) (fractionDigits positive significand exponent taken)
  := by
  have finish : ∀ {significand taken cs rest x},
      fractionDigits.finish positive significand exponent taken cs = .ok (x, rest) →
      ∃ used, cs = used ++ rest ∧ Decimals taken used ∧
        fractionDigits positive significand exponent taken used = .ok (x, []) := by
    intro significand taken cs rest x h
    obtain ⟨htaken, hfinish⟩ := fractionDigits_finish h
    rw [hfinish] at h
    obtain ⟨used, rfl, hexponent, hused⟩ := takes_numberEnd.shape h
    refine ⟨used, rfl, ⟨[], used, rfl, .nil, fun h => absurd h htaken, hexponent⟩, ?_⟩
    rw [fractionDigits_noDigit (noDigit_of_exponent hexponent), hfinish, hused]
  constructor
  · intro cs rest x h
    induction cs generalizing significand taken with
    | nil => exact finish h
    | cons c cs ih =>
      simp only [fractionDigits] at h
      split at h
      case isTrue hdigit =>
        split at h
        case isTrue hle =>
          obtain ⟨used, rfl, ⟨digits, tail, rfl, hdigits, -, htail⟩, hused⟩ := ih _ h
          refine ⟨c :: (digits ++ tail), rfl, ⟨c :: digits, tail, rfl, hdigits.cons hdigit,
            fun _ => by simp, htail⟩, ?_⟩
          simpa only [fractionDigits, hdigit, hle, if_true] using hused
        case isFalse hlarge =>
          obtain ⟨digits, hcs, hdigits, hskip⟩ := skipDigits_shape cs
          obtain ⟨tail, hrest, htail, hused⟩ := takes_numberEnd.shape h
          refine ⟨c :: (digits ++ tail), ?_, ⟨c :: digits, tail, rfl, hdigits.cons hdigit,
            fun _ => by simp, htail⟩, ?_⟩
          · rw [hrest] at hcs
            rw [List.cons_append, List.append_assoc]
            exact congrArg (c :: ·) hcs
          · simp only [fractionDigits, hdigit, hlarge, if_true, if_false]
            rw [skipDigits_append (noDigit_of_exponent htail), hskip]
            exact hused
      case isFalse => exact finish h
  · intro used rest x h stops
    induction used generalizing significand taken with
    | nil =>
      obtain ⟨-, hfinish⟩ := fractionDigits_finish h
      rw [List.nil_append, fractionDigits_noDigit stops.noDigit, hfinish]
      exact takes_numberEnd.append ((hfinish []).symm.trans h) stops
    | cons c used ih =>
      simp only [fractionDigits] at h
      simp only [List.cons_append, fractionDigits]
      split at h
      case isTrue hdigit =>
        rw [if_pos hdigit]
        split at h
        case isTrue hle =>
          rw [if_pos hle]
          exact ih _ h
        case isFalse hlarge =>
          rw [if_neg hlarge, skipDigits_append stops.noDigit]
          exact takes_numberEnd.append h stops
      case isFalse hdigit =>
        rw [if_neg hdigit]
        obtain ⟨-, hfinish⟩ := fractionDigits_finish h
        rw [hfinish] at h ⊢
        exact takes_numberEnd.append h stops

/-! ### Integers -/

theorem longInteger_of_head {exponent : Nat} {cs : List Char}
    (h : ∀ c ∈ cs.head?, c ≠ '.' ∧ c.isDigit = false) :
  longInteger positive significand exponent cs = numberEnd positive significand exponent cs
  := by
  rw [longInteger.eq_def]
  split
  case h_1 => exact absurd rfl (h '.' rfl).1
  case h_2 c rest hpoint => rw [(h c rfl).2, if_neg Bool.false_ne_true]
  case h_3 => rfl

theorem longInteger_digit {exponent : Nat} {c : Char} {cs : List Char} (hc : c.isDigit = true) :
  longInteger positive significand exponent (c :: cs)
    = longInteger positive significand (exponent + 1) cs
  := by
  rw [longInteger.eq_def]
  split
  case h_1 heq =>
    cases heq
    cases hc
  case h_2 heq =>
    cases heq
    rw [if_pos hc]
  case h_3 heq => cases heq

theorem ne_point_of_exponent {cs : List Char} (h : Exponent cs) :
  ∀ c ∈ cs.head?, c ≠ '.' ∧ c.isDigit = false
  := by
  intro c hc
  refine ⟨?_, noDigit_of_exponent h c hc⟩
  rintro rfl
  cases h with
  | none => cases hc
  | plain mark | signed mark =>
    cases hc
    simp at mark

theorem Stops.ne_point {cs : List Char} (h : Stops cs) :
  ∀ c ∈ cs.head?, c ≠ '.' ∧ c.isDigit = false
  := by
  intro c hc
  refine ⟨?_, h.noDigit c hc⟩
  rintro rfl
  cases h '.' hc

/-- Digits and then what may follow an integer. -/
def Integer (cs : List Char) : Prop :=
  ∃ digits rest, cs = digits ++ rest ∧ AllDigits digits ∧ Rest rest

theorem Integer.of_rest {cs : List Char} (h : Rest cs) :
  Integer cs
  := ⟨[], cs, rfl, .nil, h⟩

theorem Integer.cons {c : Char} {cs : List Char} (hc : c.isDigit = true) (h : Integer cs) :
  Integer (c :: cs)
  := by
  obtain ⟨digits, rest, rfl, hdigits, hrest⟩ := h
  exact ⟨c :: digits, rest, rfl, hdigits.cons hc, hrest⟩

theorem takes_longInteger (exponent : Nat) :
  Takes Integer (longInteger positive significand exponent)
  := by
  constructor
  · intro cs rest x h
    induction cs generalizing exponent with
    | nil =>
      obtain ⟨used, hcs, hexponent, hused⟩ := takes_numberEnd.shape h
      rw [← longInteger_of_head (ne_point_of_exponent hexponent)] at hused
      exact ⟨used, hcs, .of_rest (.of_exponent hexponent), hused⟩
    | cons c cs ih =>
      rw [longInteger.eq_def] at h
      split at h
      case h_1 heq =>
        cases heq
        obtain ⟨used, rfl, hdecimals, hused⟩ := (takes_fractionDigits _ 0).shape h
        exact ⟨'.' :: used, rfl, .of_rest (.of_decimals hdecimals), hused⟩
      case h_2 heq =>
        cases heq
        split at h
        case isTrue hdigit =>
          obtain ⟨used, rfl, hinteger, hused⟩ := ih _ h
          exact ⟨c :: used, rfl, hinteger.cons hdigit, (longInteger_digit hdigit).trans hused⟩
        case isFalse =>
          obtain ⟨used, hcs, hexponent, hused⟩ := takes_numberEnd.shape h
          rw [← longInteger_of_head (ne_point_of_exponent hexponent)] at hused
          exact ⟨used, hcs, .of_rest (.of_exponent hexponent), hused⟩
      case h_3 heq => cases heq
  · intro used rest x h stops
    induction used generalizing exponent with
    | nil =>
      rw [List.nil_append, longInteger_of_head stops.ne_point]
      exact takes_numberEnd.append h stops
    | cons c used ih =>
      rw [longInteger.eq_def] at h
      split at h
      case h_1 heq =>
        cases heq
        exact (takes_fractionDigits _ 0).append h stops
      case h_2 hpoint heq =>
        cases heq
        split at h
        case isTrue hdigit =>
          rw [List.cons_append, longInteger_digit hdigit]
          exact ih _ h
        case isFalse hdigit =>
          rw [longInteger_of_head]
          · exact takes_numberEnd.append h stops
          · rintro _ ⟨⟩
            exact ⟨hpoint, by simpa using hdigit⟩
      case h_3 heq => cases heq

theorem takes_afterInteger :
  Takes Rest (afterInteger positive significand)
  := by
  constructor
  · intro cs rest x h
    rw [afterInteger.eq_def] at h
    split at h
    case h_1 =>
      obtain ⟨used, rfl, hdecimals, hused⟩ := (takes_fractionDigits _ 0).shape h
      exact ⟨'.' :: used, rfl, .of_decimals hdecimals, hused⟩
    case h_2 =>
      obtain ⟨used, rfl, hexponent, hused⟩ := takes_exponentPart.shape h
      exact ⟨'e' :: used, rfl, .of_exponent (hexponent _ (.inl rfl)), hused⟩
    case h_3 =>
      obtain ⟨used, rfl, hexponent, hused⟩ := takes_exponentPart.shape h
      exact ⟨'E' :: used, rfl, .of_exponent (hexponent _ (.inr rfl)), hused⟩
    case h_4 =>
      cases h
      exact ⟨[], rfl, .of_exponent .none, rfl⟩
  · intro used rest x h stops
    rw [afterInteger.eq_def] at h
    split at h
    case h_1 => exact (takes_fractionDigits _ 0).append h stops
    case h_2 => exact takes_exponentPart.append h stops
    case h_3 => exact takes_exponentPart.append h stops
    case h_4 =>
      cases h
      rw [List.nil_append, afterInteger.eq_def]
      split
      case h_1 => exact absurd rfl (stops.ne rfl)
      case h_2 => exact absurd rfl (stops.ne rfl)
      case h_3 => exact absurd rfl (stops.ne rfl)
      case h_4 => rfl

end

theorem integerDigits_noDigit {positive : Bool} {significand : Nat} {cs : List Char}
    (h : NoDigit cs) :
  integerDigits positive significand cs = afterInteger positive significand cs
  := by
  cases cs with
  | nil => rfl
  | cons c cs => simp [integerDigits, h c rfl]

theorem takes_integerDigits {positive : Bool} (significand : Nat) :
  Takes Integer (integerDigits positive significand)
  := by
  constructor
  · intro cs rest x h
    induction cs generalizing significand with
    | nil =>
      obtain ⟨used, hcs, hrest, hused⟩ := takes_afterInteger.shape h
      exact ⟨used, hcs, .of_rest hrest, (integerDigits_noDigit hrest.noDigit).trans hused⟩
    | cons c cs ih =>
      simp only [integerDigits] at h
      split at h
      case isTrue hdigit =>
        split at h
        case isTrue hle =>
          obtain ⟨used, rfl, hinteger, hused⟩ := ih _ h
          refine ⟨c :: used, rfl, hinteger.cons hdigit, ?_⟩
          simpa only [integerDigits, hdigit, hle, if_true] using hused
        case isFalse hlarge =>
          rw [longInteger_digit hdigit] at h
          obtain ⟨used, rfl, hinteger, hused⟩ := (takes_longInteger _).shape h
          refine ⟨c :: used, rfl, hinteger.cons hdigit, ?_⟩
          simp only [integerDigits, hdigit, hlarge, if_true, if_false, longInteger_digit]
          exact hused
      case isFalse =>
        obtain ⟨used, hcs, hrest, hused⟩ := takes_afterInteger.shape h
        exact ⟨used, hcs, .of_rest hrest, (integerDigits_noDigit hrest.noDigit).trans hused⟩
  · intro used rest x h stops
    induction used generalizing significand with
    | nil =>
      rw [List.nil_append, integerDigits_noDigit stops.noDigit]
      exact takes_afterInteger.append h stops
    | cons c used ih =>
      simp only [integerDigits] at h
      simp only [List.cons_append, integerDigits]
      split at h
      case isTrue hdigit =>
        rw [if_pos hdigit]
        split at h
        case isTrue hle =>
          rw [if_pos hle]
          exact ih _ h
        case isFalse hlarge =>
          rw [if_neg hlarge]
          exact (takes_longInteger _).append h stops
      case isFalse hdigit =>
        rw [if_neg hdigit]
        exact takes_afterInteger.append h stops

/-! ### Numbers -/

/-- A zero that stands alone. -/
theorem readNumber_zero {positive : Bool} {cs : List Char} (h : NoDigit cs) :
  readNumber positive ('0' :: cs) = afterInteger positive 0 cs
  := by
  cases cs with
  | nil => rfl
  | cons c cs => simp [readNumber, h c rfl]

theorem takes_readNumber {positive : Bool} :
  Takes Unsigned (readNumber positive)
  := by
  have zero : ∀ {cs rest x}, readNumber positive ('0' :: cs) = .ok (x, rest) → NoDigit cs := by
    intro cs rest x h
    cases cs with
    | nil => simp [NoDigit]
    | cons c cs =>
      simp only [readNumber] at h
      split at h
      case isTrue => cases h
      case isFalse hdigit =>
        rintro _ ⟨⟩
        simpa using hdigit
  have digits : ∀ {c cs}, c ≠ '0' → c.isDigit = true →
      readNumber positive (c :: cs) = integerDigits positive (digitValue c) cs := by
    intro c cs hzero hdigit
    rw [readNumber, if_pos hdigit]
    exact hzero
  constructor
  · intro cs rest x h
    cases cs with
    | nil => cases h
    | cons c cs =>
      by_cases hzero : c = '0'
      · subst hzero
        rw [readNumber_zero (zero h)] at h
        obtain ⟨used, rfl, hrest, hused⟩ := takes_afterInteger.shape h
        refine ⟨'0' :: used, rfl, ?_, (readNumber_zero hrest.noDigit).trans hused⟩
        obtain ⟨fraction, exponent, rfl, hfraction, hexponent⟩ := hrest
        exact .mk .zero hfraction hexponent
      · cases hdigit : c.isDigit with
        | true =>
          rw [digits hzero hdigit] at h
          obtain ⟨used, rfl, hinteger, hused⟩ := (takes_integerDigits _).shape h
          refine ⟨c :: used, rfl, ?_, (digits hzero hdigit).trans hused⟩
          obtain ⟨others, rest, rfl, hothers, fraction, exponent, rfl, hfraction, hexponent⟩ := hinteger
          rw [← List.append_assoc, ← List.cons_append, ← List.cons_append]
          exact .mk (.digits hzero (hothers.digits hdigit)) hfraction hexponent
        | false =>
          rw [readNumber, hdigit] at h
          · cases h
          · exact hzero
  · intro used rest x h stops
    cases used with
    | nil => cases h
    | cons c used =>
      by_cases hzero : c = '0'
      · subst hzero
        have hused := zero h
        rw [readNumber_zero hused] at h
        rw [List.cons_append, readNumber_zero]
        · exact takes_afterInteger.append h stops
        · cases used with
          | nil => exact stops.noDigit
          | cons d used => exact hused
      · cases hdigit : c.isDigit with
        | true =>
          rw [digits hzero hdigit] at h
          rw [List.cons_append, digits hzero hdigit]
          exact (takes_integerDigits _).append h stops
        | false =>
          rw [readNumber, hdigit] at h
          · cases h
          · exact hzero

end Jsonnet.Json
