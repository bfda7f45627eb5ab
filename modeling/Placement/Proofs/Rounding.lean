import Mathlib
import Placement.Proofs.Failure

/-!
# Rounding to doubles

The unit in the last place of a quotient follows its binary logarithm (`Double.unitExponent_eq`), so rounding depends on
the value of a quotient alone (`Double.codeOfQuotient_scale`).  A number that is a double already is its own nearest
double (`Double.codeOfQuotient_quotient`).  The unit interval, which is decided on codes, has just the doubles that
stand for a number in it (`Double.inUnitInterval_iff`).
-/

namespace Placement.Double
set_option autoImplicit false

/-! ## The unit in the last place -/

theorem atLeastPower_iff (num : ℕ) {den : ℕ} (hden : 0 < den) (e : ℤ) :
    atLeastPower num den e = true ↔ (2 : ℚ) ^ e ≤ (num : ℚ) / den := by
  have hpos : (0 : ℚ) < den := Nat.cast_pos.2 hden
  unfold atLeastPower
  rw [le_div_iff₀ hpos]
  split_ifs with h
  · obtain ⟨k, rfl⟩ : ∃ k : ℕ, e = -(k : ℤ) := ⟨(-e).toNat, by omega⟩
    rw [decide_eq_true_iff, Int.neg_neg, Int.toNat_natCast, zpow_neg, zpow_natCast, inv_mul_le_iff₀ (by positivity),
      mul_comm]
    exact_mod_cast Iff.rfl
  · obtain ⟨k, rfl⟩ : ∃ k : ℕ, e = k := ⟨e.toNat, by omega⟩
    rw [decide_eq_true_iff, Int.toNat_natCast, zpow_natCast, mul_comm]
    exact_mod_cast Iff.rfl

/-- The lengths of numerator and denominator tell the logarithm of a quotient but for one. -/
theorem log_quotient {num den : ℕ} (hnum : 0 < num) (hden : 0 < den) :
    Int.log 2 ((num : ℚ) / den) = (num.log2 : ℤ) - den.log2 ∨
      Int.log 2 ((num : ℚ) / den) = (num.log2 : ℤ) - den.log2 - 1 := by
  have hd : (0 : ℚ) < den := Nat.cast_pos.2 hden
  have hpos : (0 : ℚ) < (num : ℚ) / den := div_pos (Nat.cast_pos.2 hnum) hd
  have hnlow : (2 : ℚ) ^ num.log2 ≤ num := by exact_mod_cast Nat.log2_self_le hnum.ne'
  have hnhigh : (num : ℚ) < 2 ^ (num.log2 + 1) := by exact_mod_cast Nat.lt_log2_self
  have hdlow : (2 : ℚ) ^ den.log2 ≤ den := by exact_mod_cast Nat.log2_self_le hden.ne'
  have hdhigh : (den : ℚ) < 2 ^ (den.log2 + 1) := by exact_mod_cast Nat.lt_log2_self
  have hlow : (2 : ℚ) ^ ((num.log2 : ℤ) - (den.log2 + 1 : ℕ)) ≤ (num : ℚ) / den := by
    rw [zpow_sub₀ two_ne_zero, zpow_natCast, zpow_natCast]
    exact div_le_div₀ (Nat.cast_nonneg _) hnlow hd hdhigh.le
  have hhigh : (num : ℚ) / den < (2 : ℚ) ^ (((num.log2 + 1 : ℕ) : ℤ) - den.log2) := by
    rw [zpow_sub₀ two_ne_zero, zpow_natCast, zpow_natCast]
    exact div_lt_div₀ hnhigh hdlow (by positivity) (by positivity)
  have h1 := (Int.zpow_le_iff_le_log (b := 2) (by decide) hpos).1 (by rwa [Nat.cast_ofNat])
  have h2 := (Int.lt_zpow_iff_log_lt (b := 2) (by decide) hpos).1 (by rwa [Nat.cast_ofNat])
  omega

theorem unitExponent_eq {num den : ℕ} (hnum : 0 < num) (hden : 0 < den) :
    unitExponent num den = max (Int.log 2 ((num : ℚ) / den) - 52) (-1074) := by
  have hpos : (0 : ℚ) < (num : ℚ) / den := div_pos (Nat.cast_pos.2 hnum) (Nat.cast_pos.2 hden)
  have hreach (e : ℤ) : atLeastPower num den e = true ↔ e ≤ Int.log 2 ((num : ℚ) / den) := by
    rw [atLeastPower_iff num hden]
    exact_mod_cast Int.zpow_le_iff_le_log (b := 2) (by decide) hpos
  have hlog := log_quotient hnum hden
  unfold unitExponent
  dsimp only
  split_ifs with h
  · rw [hreach] at h
    omega
  · rw [hreach] at h
    omega

/-! ## Quotients of one value -/

theorem divNearest_scale {k : ℕ} (hk : 0 < k) (num den : ℕ) :
    divNearest (k * num) (k * den) = divNearest num den := by
  unfold divNearest
  rw [Nat.mul_div_mul_left _ _ hk, Nat.mul_mod_mul_left]
  simp only [Nat.mul_left_comm 2 k, Nat.mul_lt_mul_left hk]

theorem inUnits_scale {k : ℕ} (hk : 0 < k) (num den : ℕ) (e : ℤ) :
    inUnits (k * num) (k * den) e = inUnits num den e := by
  unfold inUnits
  rw [Nat.mul_assoc, Nat.mul_assoc, divNearest_scale hk, divNearest_scale hk]

theorem codeOfQuotient_scale {k den : ℕ} (hk : 0 < k) (hden : 0 < den) (num : ℕ) :
    codeOfQuotient (k * num) (k * den) = codeOfQuotient num den := by
  rcases Nat.eq_zero_or_pos num with rfl | hnum
  · rw [Nat.mul_zero, codeOfQuotient, codeOfQuotient, if_pos rfl, if_pos rfl]
  · have hvalue : ((k * num : ℕ) : ℚ) / (k * den : ℕ) = (num : ℚ) / den := by
      push_cast
      exact mul_div_mul_left _ _ (Nat.cast_ne_zero.2 hk.ne')
    have hunit : unitExponent (k * num) (k * den) = unitExponent num den := by
      rw [unitExponent_eq (Nat.mul_pos hk hnum) (Nat.mul_pos hk hden), unitExponent_eq hnum hden, hvalue]
    simp only [codeOfQuotient, (Nat.mul_pos hk hnum).ne', hnum.ne', if_false, hunit, inUnits_scale hk]

/-- Quotients of one value round to one code. -/
theorem codeOfQuotient_congr {num den num' den' : ℕ} (hden : 0 < den) (hden' : 0 < den')
    (h : (num : ℚ) / den = (num' : ℚ) / den') : codeOfQuotient num den = codeOfQuotient num' den' := by
  have hcross : den' * num = den * num' := by
    rw [div_eq_div_iff (Nat.cast_ne_zero.2 hden.ne') (Nat.cast_ne_zero.2 hden'.ne')] at h
    have : num * den' = num' * den := by exact_mod_cast h
    rw [Nat.mul_comm den', this, Nat.mul_comm]
  rw [← codeOfQuotient_scale hden' hden num, ← codeOfQuotient_scale hden hden' num', hcross, Nat.mul_comm den' den]

/-! ## Doubles -/

theorem divNearest_mul_right (n : ℕ) {k : ℕ} (hk : 0 < k) : divNearest (n * k) k = n := by
  unfold divNearest
  simp [Nat.mul_div_cancel _ hk, hk]

/-- Significands of 53 bits, or shorter ones with the least exponent. -/
theorem parts_spec (code : ℕ) :
    (parts code).1 < 2 ^ 53 ∧ -1074 ≤ (parts code).2 ∧ (2 ^ 52 ≤ (parts code).1 ∨ (parts code).2 = -1074) ∧
      ((parts code).2 + 1074).toNat * Nat.pow 2 52 + (parts code).1 = code := by
  have hpow : Nat.pow 2 52 = 4503599627370496 := rfl
  unfold parts
  rw [hpow]
  split_ifs with h
  · exact ⟨by omega, by omega, .inr rfl, by omega⟩
  · dsimp only
    omega

/-- A magnitude is its significand times the unit in its last place. -/
theorem quotient_value (code : ℕ) :
    ((quotient code).1 : ℚ) / (quotient code).2 = (parts code).1 * (2 : ℚ) ^ (parts code).2 := by
  unfold quotient
  dsimp only
  split_ifs with h
  · obtain ⟨k, hk⟩ : ∃ k : ℕ, (parts code).2 = -(k : ℤ) := ⟨(-(parts code).2).toNat, by omega⟩
    rw [hk, Int.neg_neg, Int.toNat_natCast, zpow_neg, zpow_natCast, div_eq_mul_inv, Nat.pow_eq, Nat.cast_pow,
      Nat.cast_ofNat]
  · obtain ⟨k, hk⟩ : ∃ k : ℕ, (parts code).2 = k := ⟨(parts code).2.toNat, by omega⟩
    rw [hk, Int.toNat_natCast, zpow_natCast, Nat.pow_eq, Nat.cast_mul, Nat.cast_pow, Nat.cast_ofNat, Nat.cast_one,
      div_one]

theorem inUnits_quotient (code : ℕ) :
    inUnits (quotient code).1 (quotient code).2 (parts code).2 = (parts code).1 := by
  unfold inUnits quotient
  dsimp only
  split_ifs with h
  · exact divNearest_mul_right _ (Nat.two_pow_pos _)
  · rw [Nat.one_mul]
    exact divNearest_mul_right _ (Nat.two_pow_pos _)

theorem unitExponent_quotient {code : ℕ} (hnum : 0 < (quotient code).1) (hden : 0 < (quotient code).2) :
    unitExponent (quotient code).1 (quotient code).2 = (parts code).2 := by
  obtain ⟨hshort, hleast, hlong, -⟩ := parts_spec code
  have hpos : (0 : ℚ) < ((quotient code).1 : ℚ) / (quotient code).2 :=
    div_pos (Nat.cast_pos.2 hnum) (Nat.cast_pos.2 hden)
  rw [unitExponent_eq hnum hden]
  rw [quotient_value] at hpos ⊢
  generalize (parts code).1 = m at hshort hlong hpos ⊢
  generalize (parts code).2 = e at hleast hlong hpos ⊢
  have hunit : (0 : ℚ) < 2 ^ e := zpow_pos two_pos e
  have hhigh : Int.log 2 ((m : ℚ) * 2 ^ e) < 53 + e := by
    refine (Int.lt_zpow_iff_log_lt (b := 2) (by decide) hpos).1 ?_
    rw [Nat.cast_ofNat, zpow_add₀ two_ne_zero]
    exact mul_lt_mul_of_pos_right (by exact_mod_cast hshort) hunit
  obtain hlong | rfl := hlong
  · have hlow : 52 + e ≤ Int.log 2 ((m : ℚ) * 2 ^ e) := by
      refine (Int.zpow_le_iff_le_log (b := 2) (by decide) hpos).1 ?_
      rw [Nat.cast_ofNat, zpow_add₀ two_ne_zero]
      exact mul_le_mul_of_nonneg_right (by exact_mod_cast hlong) hunit.le
    omega
  · omega

theorem codeOfQuotient_quotient (code : ℕ) : codeOfQuotient (quotient code).1 (quotient code).2 = code := by
  obtain ⟨-, -, hlong, hcode⟩ := parts_spec code
  have hden := quotient_den_pos code
  unfold codeOfQuotient
  split_ifs with hnum
  · exact ((quotient_num_eq_zero_iff code).1 hnum).symm
  · dsimp only
    rw [unitExponent_quotient (Nat.pos_of_ne_zero hnum) hden, inUnits_quotient, hcode]

/-! ## The unit interval -/

theorem mul_zpow_le {m k : ℕ} {e l : ℤ} (hm : m ≤ 2 ^ k) (he : e ≤ l) : (m : ℚ) * 2 ^ e ≤ 2 ^ (k + l) := by
  calc (m : ℚ) * 2 ^ e ≤ 2 ^ k * 2 ^ l := by
        gcongr
        · exact_mod_cast hm
        · norm_num
    _ = 2 ^ (k + l) := by rw [zpow_add₀ two_ne_zero, zpow_natCast]

theorem quotient_le_one {code : ℕ} (h : code ≤ oneCode) : ((quotient code).1 : ℚ) / (quotient code).2 ≤ 1 := by
  obtain ⟨hshort, hleast, hlong, hcode⟩ := parts_spec code
  have hone : oneCode = 1023 * Nat.pow 2 52 := rfl
  have hpow : Nat.pow 2 52 = 4503599627370496 := rfl
  rw [hpow] at hcode hone
  rw [quotient_value]
  -- Up to one the unit is at most `2 ^ (-52)`, and a significand beyond 52 bits needs a smaller one.
  rcases le_or_gt (parts code).2 (-53) with hsmall | hlarge
  · simpa using mul_zpow_le hshort.le hsmall
  · have hm : (parts code).1 ≤ 2 ^ 52 := by omega
    have he : (parts code).2 ≤ -52 := by omega
    simpa using mul_zpow_le hm he

theorem one_lt_quotient {code : ℕ} (h : oneCode < code) : 1 < ((quotient code).1 : ℚ) / (quotient code).2 := by
  obtain ⟨hshort, -, hlong, hcode⟩ := parts_spec code
  have hone : oneCode = 1023 * Nat.pow 2 52 := rfl
  have hpow : Nat.pow 2 52 = 4503599627370496 := rfl
  rw [hpow] at hcode hone
  rw [quotient_value]
  have hm : 2 ^ 52 ≤ (parts code).1 := by omega
  -- A significand of `2 ^ 52` with the unit of one is one itself, so either of them is greater.
  rcases lt_or_ge (-52) (parts code).2 with hlarge | hsmall
  · calc (1 : ℚ) < 2 ^ 52 * 2 ^ (-51 : ℤ) := by norm_num
      _ ≤ (parts code).1 * 2 ^ (parts code).2 := by
        gcongr
        · exact_mod_cast hm
        · norm_num
        · omega
  · have he : (parts code).2 = -52 := by omega
    have hnext : 2 ^ 52 < (parts code).1 := by omega
    calc (1 : ℚ) = 2 ^ 52 * 2 ^ (-52 : ℤ) := by norm_num
      _ < (parts code).1 * 2 ^ (parts code).2 := by
        rw [he]
        gcongr
        exact_mod_cast hnext

theorem toRat?_finite (negative : Bool) (code : Fin codeLimit) :
    (finite negative code).toRat? =
      some (((quotient code.val).1 : ℚ) / (quotient code.val).2 * if negative then -1 else 1) := by
  have hvalue : mkRat (quotient code.val).1 (quotient code.val).2 =
      ((quotient code.val).1 : ℚ) / (quotient code.val).2 := by rw [Rat.mkRat_eq_div, Int.cast_natCast]
  cases negative with
  | false =>
    rw [if_neg Bool.false_ne_true, mul_one]
    exact congrArg some hvalue
  | true =>
    rw [if_pos rfl, mul_neg_one]
    exact congrArg (fun q => some (-q)) hvalue

theorem toRat?_of_inUnitInterval {d : Double} (h : d.inUnitInterval = true) :
    ∃ q : ℚ, d.toRat? = some q ∧ 0 ≤ q ∧ q ≤ 1 := by
  cases d with
  | nan => cases h
  | infinite negative => cases negative <;> cases h
  | finite negative code =>
    refine ⟨_, toRat?_finite negative code, ?_⟩
    simp only [inUnitInterval, isNegative, atMostOne, Bool.and_eq_true, Bool.not_eq_true', Bool.and_eq_false_iff,
      bne_eq_false_iff_eq, Bool.or_eq_true, decide_eq_true_eq] at h
    cases negative with
    | false =>
      rw [if_neg Bool.false_ne_true, mul_one]
      exact ⟨by positivity, quotient_le_one (h.2.resolve_left Bool.false_ne_true)⟩
    | true =>
      have hzero : (quotient code.val).1 = 0 := (quotient_num_eq_zero_iff _).2 (h.1.resolve_left (by decide))
      rw [hzero, Nat.cast_zero, zero_div, zero_mul]
      exact ⟨le_rfl, zero_le_one⟩

/-- The doubles of the unit interval are those that stand for a number from zero to one. -/
theorem inUnitInterval_iff (d : Double) :
    d.inUnitInterval = true ↔ ∃ q : ℚ, d.toRat? = some q ∧ 0 ≤ q ∧ q ≤ 1 := by
  refine ⟨toRat?_of_inUnitInterval, ?_⟩
  rintro ⟨q, hq, hnonneg, hle⟩
  cases d with
  | nan => cases hq
  | infinite negative => cases hq
  | finite negative code =>
    rw [toRat?_finite, Option.some.injEq] at hq
    cases negative with
    | false =>
      rw [if_neg Bool.false_ne_true, mul_one] at hq
      have hcode : code.val ≤ oneCode := by
        by_contra hlarge
        exact absurd (one_lt_quotient (not_le.1 hlarge)) (not_lt.2 (hq ▸ hle))
      simp [inUnitInterval, isNegative, atMostOne, hcode]
    | true =>
      have hpos : (0 : ℚ) ≤ ((quotient code.val).1 : ℚ) / (quotient code.val).2 := by positivity
      rw [if_pos rfl, mul_neg_one] at hq
      have hzero : ((quotient code.val).1 : ℚ) / (quotient code.val).2 = 0 := by linarith
      have hden : ((quotient code.val).2 : ℚ) ≠ 0 := by exact_mod_cast (quotient_den_pos code.val).ne'
      have hnum : (quotient code.val).1 = 0 := by exact_mod_cast (div_eq_zero_iff.1 hzero).resolve_right hden
      have hcode : code.val = 0 := (quotient_num_eq_zero_iff code.val).1 hnum
      simp [inUnitInterval, isNegative, atMostOne, hcode]

end Placement.Double
