import Jsonnet.Proofs.FiniteNumbers

/-!
# Integers among the numbers

The natural numbers up to `2 ^ 53` are numbers without rounding: they are integers, in their order,
and their sums are exact.
-/

namespace Jsonnet

namespace Number

open Binary64

variable {m n : Nat}

/-! ### Bits -/

/-- The significand of a natural number of 53 bits, its leading bit included. -/
theorem significand_mem (hzero : n ≠ 0) (h : n < 2 ^ 53) :
  n.log2 ≤ 52 ∧ 2 ^ 52 ≤ n * 2 ^ (52 - n.log2) ∧ n * 2 ^ (52 - n.log2) < 2 ^ 53
  := by
  have places : n.log2 ≤ 52 := Nat.le_of_lt_succ ((Nat.log2_lt hzero).mpr h)
  have low : 2 ^ n.log2 ≤ n := Nat.log2_self_le hzero
  have high : n < 2 ^ (n.log2 + 1) := Nat.lt_log2_self
  refine ⟨places, ?_, ?_⟩
  · calc 2 ^ 52 = 2 ^ n.log2 * 2 ^ (52 - n.log2) := by rw [← Nat.pow_add, Nat.add_sub_cancel' places]
      _ ≤ n * 2 ^ (52 - n.log2) := Nat.mul_le_mul_right _ low
  · calc n * 2 ^ (52 - n.log2) < 2 ^ (n.log2 + 1) * 2 ^ (52 - n.log2) :=
          Nat.mul_lt_mul_of_pos_right high (Nat.two_pow_pos _)
      _ = 2 ^ 53 := by rw [← Nat.pow_add]; congr 1; omega

/-- The bits of a natural number of 53 bits. -/
theorem toNat_bits_ofNat (hzero : n ≠ 0) (h : n < 2 ^ 53) :
  (ofNat n).bits.toNat = (1022 + n.log2) * 2 ^ 52 + n * 2 ^ (52 - n.log2)
  := by
  obtain ⟨places, -, high⟩ := significand_mem hzero h
  rw [ofNat, if_neg hzero]
  simp only [if_pos places, Nat.pow_eq, Nat.toUInt64_eq, UInt64.toNat_ofNat']
  apply Nat.mod_eq_of_lt
  omega

theorem toNat_bits_two_pow :
  (ofNat (2 ^ 53)).bits.toNat = 1076 * 2 ^ 52
  := by decide +kernel

/-- The units of one, with an exponent that is not computed with. -/
theorem unitsPerOne_eq {k : Nat} (h : k = 1074) :
  unitsPerOne = 2 ^ k
  := by
  unfold unitsPerOne
  rw [← h, Nat.pow_eq]

theorem unitsPerOne_pos :
  0 < unitsPerOne
  := by
  obtain ⟨k, hk⟩ : ∃ k, k = 1074 := ⟨_, rfl⟩
  rw [unitsPerOne_eq hk]
  exact Nat.two_pow_pos k

/-- The units of a natural number, by its significand. -/
theorem units_eq (places : n.log2 ≤ 52) :
  n * unitsPerOne = n * 2 ^ (52 - n.log2) * 2 ^ (1022 + n.log2)
  := by
  have exponent : 52 - n.log2 + (1022 + n.log2) = 1074 := by omega
  rw [unitsPerOne_eq exponent, Nat.mul_assoc, Nat.pow_add]

/-- The value of a positive number, by its exponent and its significand. -/
theorem value_of_bits {x : Number} {exponent significand : Nat}
    (bits : x.bits.toNat = exponent * 2 ^ 52 + significand) (low : 2 ^ 52 ≤ significand)
    (high : significand < 2 ^ 53) (small : exponent < 2046) :
  x.value = .finite false (significand * 2 ^ exponent)
  := by
  have sign : signOf x.bits = false := by
    rw [signOf, bits, Nat.pow_eq, beq_eq_false_iff_ne]
    omega
  have field : exponentOf x.bits = exponent + 1 := by
    rw [exponentOf, bits, Nat.pow_eq, Nat.pow_eq]
    omega
  have fraction : Nat.pow 2 52 + fractionOf x.bits = significand := by
    rw [fractionOf, bits, Nat.pow_eq]
    omega
  rw [value, ofBits]
  simp only [sign, field]
  rw [if_neg (by omega), Binary64.magnitude, if_neg (Nat.succ_ne_zero _), fraction,
    Nat.add_sub_cancel, Nat.pow_eq]

/-- A natural number up to `2 ^ 53` is a number without rounding. -/
theorem value_ofNat (h : n ≤ 2 ^ 53) :
  (ofNat n).value = .finite false (n * unitsPerOne)
  := by
  obtain rfl | hzero := Nat.eq_zero_or_pos n
  · decide +kernel
  obtain rfl | h := h.eq_or_lt
  · decide +kernel
  obtain ⟨places, low, high⟩ := significand_mem hzero.ne' h
  have bits := toNat_bits_ofNat hzero.ne' h
  rw [value_of_bits bits low high (by omega), units_eq places]

/-! ### Order -/

/-- A natural number up to `2 ^ 53` is ordered by its bits. -/
theorem rank_ofNat (h : n ≤ 2 ^ 53) :
  (ofNat n).isNaN = false ∧ (ofNat n).rank = (ofNat n).bits.toNat
  := by
  have small : (ofNat n).bits.toNat < 2047 * 2 ^ 52 := by
    obtain rfl | hzero := Nat.eq_zero_or_pos n
    · decide
    obtain rfl | h := h.eq_or_lt
    · rw [toNat_bits_two_pow]
      omega
    obtain ⟨places, low, high⟩ := significand_mem hzero.ne' h
    have bits := toNat_bits_ofNat hzero.ne' h
    omega
  have magnitude : (ofNat n).magnitude = (ofNat n).bits.toNat := by
    rw [Number.magnitude, Nat.pow_eq]
    omega
  have sign : signOf (ofNat n).bits = false := by
    rw [signOf, Nat.pow_eq, beq_eq_false_iff_ne]
    omega
  constructor
  · rw [isNaN, magnitude, infiniteMagnitude, Nat.pow_eq, decide_eq_false_iff_not]
    omega
  · rw [rank, sign, magnitude]
    rfl

/-- The natural numbers up to `2 ^ 53` are in their order. -/
theorem rank_ofNat_lt (hmn : m < n) (h : n ≤ 2 ^ 53) :
  (ofNat m).rank < (ofNat n).rank
  := by
  rw [(rank_ofNat h).2, (rank_ofNat (hmn.le.trans h)).2, Int.ofNat_lt]
  have positive : 0 < n := Nat.zero_lt_of_lt hmn
  -- The bits of a number below `2 ^ 53` are below those of the next power of two.
  have bounds : ∀ k, k ≠ 0 → k < 2 ^ 53 → (1023 + k.log2) * 2 ^ 52 ≤ (ofNat k).bits.toNat ∧
      (ofNat k).bits.toNat < (1024 + k.log2) * 2 ^ 52 ∧ k.log2 ≤ 52 := by
    intro k hzero hk
    obtain ⟨places, low, high⟩ := significand_mem hzero hk
    have bits := toNat_bits_ofNat hzero hk
    omega
  obtain rfl | hm := Nat.eq_zero_or_pos m
  · obtain rfl | h := h.eq_or_lt
    · decide +kernel
    · have first : (ofNat 0).bits.toNat = 0 := rfl
      have := bounds n positive.ne' h
      omega
  have low := bounds m hm.ne' (hmn.trans_le h)
  obtain rfl | h := h.eq_or_lt
  · rw [toNat_bits_two_pow]
    omega
  have high := bounds n positive.ne' h
  have places : m.log2 ≤ n.log2 := by
    rw [Nat.log2_eq_log_two, Nat.log2_eq_log_two]
    exact Nat.log_mono_right hmn.le
  obtain places | places := places.eq_or_lt
  · rw [toNat_bits_ofNat hm.ne' (hmn.trans h), toNat_bits_ofNat positive.ne' h, places]
    have := Nat.mul_lt_mul_of_pos_right hmn (Nat.two_pow_pos (52 - n.log2))
    omega
  · omega

theorem lessEq_of_less {x y : Number} (h : x.less y = true) :
  y.lessEq x = false
  := by
  simp only [less, Bool.and_eq_true, decide_eq_true_eq] at h
  rw [lessEq, Bool.and_eq_false_iff, decide_eq_false_iff_not]
  exact .inr (not_le.mpr h.2)

theorem less_of_lessEq {x y : Number} (h : x.lessEq y = true) :
  y.less x = false
  := by
  simp only [lessEq, Bool.and_eq_true, decide_eq_true_eq] at h
  rw [less, Bool.and_eq_false_iff, decide_eq_false_iff_not]
  exact .inr (not_lt.mpr h.2)

theorem less_ofNat (hmn : m < n) (h : n ≤ 2 ^ 53) :
  (ofNat m).less (ofNat n) = true
  := by
  simp only [less, (rank_ofNat h).1, (rank_ofNat (hmn.le.trans h)).1, rank_ofNat_lt hmn h,
    Bool.not_false, Bool.and_self, decide_true]

/-- Every natural number of 64 bits is at most itself, also after it is rounded. -/
theorem lessEq_ofNat_self (h : n < 2 ^ 64) :
  (ofNat n).lessEq (ofNat n) = true
  := by
  rw [lessEq, (finite_iff.mp (finite_ofNat h)).1, decide_eq_true le_rfl]
  rfl

theorem lessEq_ofNat (hmn : m ≤ n) (h : n ≤ 2 ^ 53) :
  (ofNat m).lessEq (ofNat n) = true
  := by
  have ranks : (ofNat m).rank ≤ (ofNat n).rank := by
    obtain rfl | hmn := hmn.eq_or_lt
    · exact le_rfl
    · exact (rank_ofNat_lt hmn h).le
  simp only [lessEq, (rank_ofNat h).1, (rank_ofNat (hmn.trans h)).1, ranks, Bool.not_false,
    Bool.and_self, decide_true]

theorem less_zero_ofNat (h : n ≤ 2 ^ 53) :
  (ofNat n).less .zero = false
  := less_of_lessEq (lessEq_ofNat n.zero_le h)

/-! ### Sums -/

theorem log2_mul_two_pow (hzero : n ≠ 0) (k : Nat) :
  (n * 2 ^ k).log2 = n.log2 + k
  := by
  induction k with
  | zero => rw [Nat.pow_zero, Nat.mul_one, Nat.add_zero]
  | succ k ih =>
    have positive : n * 2 ^ k ≠ 0 := Nat.mul_ne_zero hzero (Nat.two_pow_pos k).ne'
    rw [Nat.pow_succ, ← Nat.mul_assoc, Nat.mul_comm _ 2, Nat.log2_two_mul positive, ih, Nat.add_assoc]

/-- The place of the leading bit of the units of a natural number. -/
theorem log2_units (hzero : n ≠ 0) :
  (n * unitsPerOne).log2 = n.log2 + 1074
  := by
  obtain ⟨k, hk⟩ : ∃ k, k = 1074 := ⟨_, rfl⟩
  rw [unitsPerOne_eq hk, log2_mul_two_pow hzero, hk]

/-- The units of a positive natural number have more than 53 bits. -/
theorem le_units (hzero : n ≠ 0) :
  2 ^ 53 ≤ n * unitsPerOne
  := by
  have places := log2_units hzero
  have positive : n * unitsPerOne ≠ 0 := Nat.mul_ne_zero hzero unitsPerOne_pos.ne'
  exact (Nat.pow_le_pow_right (by decide) (by omega)).trans (Nat.log2_self_le positive)

/-- The number with the value of a natural number up to `2 ^ 53`. -/
theorem ofValue_natural (h : n ≤ 2 ^ 53) :
  ofValue (.finite false (n * unitsPerOne)) = ofNat n
  := by
  obtain rfl | hzero := Nat.eq_zero_or_pos n
  · decide +kernel
  obtain rfl | h := h.eq_or_lt
  · decide +kernel
  obtain ⟨places, low, high⟩ := significand_mem hzero.ne' h
  have shift : (n * unitsPerOne).log2 - 52 = 1022 + n.log2 := by
    rw [log2_units hzero.ne']
    omega
  have significand : n * unitsPerOne / 2 ^ (1022 + n.log2) = n * 2 ^ (52 - n.log2) := by
    rw [units_eq places, Nat.mul_div_cancel _ (Nat.two_pow_pos _)]
  have bits : magnitudeBits (n * unitsPerOne) = (ofNat n).bits.toNat := by
    have large : ¬ n * unitsPerOne < Nat.pow 2 53 := Nat.not_lt.mpr (le_units hzero.ne')
    simp only [magnitudeBits, if_neg large, shift, Nat.pow_eq, significand,
      toNat_bits_ofNat hzero.ne' h]
  have fits := (ofNat n).bits.toNat_lt
  rw [ofValue, toBits, bits]
  simp

/-- A number of units that the last place divides is not rounded. -/
theorem roundedUnits_of_dvd {units : Nat} (h : 2 ^ (units.log2 - 52) ∣ units) :
  roundedUnits units = units
  := by
  rw [roundedUnits]
  split
  case isTrue => rfl
  case isFalse =>
    have exact' : units % 2 ^ (units.log2 - 52) = 0 := Nat.mod_eq_zero_of_dvd h
    have positive := Nat.two_pow_pos (units.log2 - 52)
    simp only [Nat.pow_eq, roundedQuotient, exact', Nat.mul_zero, positive, decide_true,
      Bool.true_or, if_true, Nat.div_mul_cancel h]

/-- The units of a natural number up to `2 ^ 53` are not rounded. -/
theorem roundedUnits_natural (h : n ≤ 2 ^ 53) :
  roundedUnits (n * unitsPerOne) = n * unitsPerOne
  := by
  apply roundedUnits_of_dvd
  obtain rfl | hzero := Nat.eq_zero_or_pos n
  · rw [Nat.zero_mul]
    exact dvd_zero _
  rw [log2_units hzero.ne']
  obtain rfl | h := h.eq_or_lt
  · decide +kernel
  obtain ⟨places, -, -⟩ := significand_mem hzero.ne' h
  rw [units_eq places]
  apply Dvd.dvd.mul_left
  exact Nat.pow_dvd_pow 2 (by omega)

/-- Sums of natural numbers are exact up to `2 ^ 53`. -/
theorem ofNat_add (h : m + n ≤ 2 ^ 53) :
  ofNat m + ofNat n = ofNat (m + n)
  := by
  have small : (m + n) * unitsPerOne < Nat.pow 2 1024 * unitsPerOne := by
    apply Nat.mul_lt_mul_of_pos_right (h.trans_lt ?_) unitsPerOne_pos
    decide +kernel
  change ofValue (sum (ofNat m).value (ofNat n).value) = _
  rw [value_ofNat (by omega), value_ofNat (by omega), sum, if_pos rfl, ← Nat.add_mul, nearest,
    roundedUnits_natural h, if_pos small, ofValue_natural h]

/-! ### Integers -/

/-- A number whose last place counts at least one is an integer. -/
theorem isIntegral_of_exponent {x : Number} (low : 1075 ≤ exponentOf x.bits)
    (high : exponentOf x.bits < 2047) :
  x.isIntegral = true
  := by
  obtain ⟨k, hk⟩ : ∃ k, k = 1074 := ⟨_, rfl⟩
  have places : exponentOf x.bits - 1 = exponentOf x.bits - 1075 + k := by omega
  rw [isIntegral, value, ofBits, if_neg high.ne, isInteger, Binary64.magnitude, if_neg (by omega),
    places, unitsPerOne_eq hk, Nat.pow_eq, Nat.pow_eq, Nat.pow_add, ← Nat.mul_assoc,
    Nat.mul_mod_left, beq_self_eq_true]

/-- A natural number of 64 bits is an integer also after it is rounded. -/
theorem isIntegral_ofNat (h : n < 2 ^ 64) :
  (ofNat n).isIntegral = true
  := by
  obtain small | large := Nat.lt_or_ge n (2 ^ 53)
  · rw [isIntegral, value_ofNat small.le, isInteger, Nat.mul_mod_left, beq_self_eq_true]
  have hzero : n ≠ 0 := by omega
  have places : 53 ≤ n.log2 ∧ n.log2 < 64 := ⟨(Nat.le_log2 hzero).mpr large, (Nat.log2_lt hzero).mpr h⟩
  have exponent : 1075 ≤ exponentOf (ofNat n).bits ∧ exponentOf (ofNat n).bits < 2047 := by
    have significand := significand_le n
    rw [if_neg (by omega)] at significand
    simp only [ofNat, if_neg hzero, if_neg (show ¬ n.log2 ≤ 52 by omega), exponentOf, Nat.pow_eq,
      Nat.toUInt64_eq, UInt64.toNat_ofNat']
    omega
  exact isIntegral_of_exponent exponent.1 exponent.2

/-- The integer of a natural number up to `2 ^ 53`. -/
theorem word_ofNat (h : n ≤ 2 ^ 53) :
  (ofNat n).word = n
  := by
  have least : leastWord = -2 ^ 63 := rfl
  have greatest : greatestWord = 2 ^ 63 - 1 := rfl
  rw [word, value_ofNat h, clamp, Nat.mul_div_cancel _ unitsPerOne_pos, least, greatest]
  simp only [Bool.false_eq_true, if_false, Int.ofNat_eq_natCast]
  omega

end Number

end Jsonnet
