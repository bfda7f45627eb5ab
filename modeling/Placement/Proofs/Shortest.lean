import Placement.Proofs.Decimal
import Placement.Proofs.Rounding

/-!
# Texts of doubles read back as doubles

What a decimal rounds to depends on its value alone (`Decimal.code_congr`).  The search for the shortest decimal takes
only decimals that round to the code it is given, and so does the exact expansion that stands in at its end; so
the decimal of a code rounds to that code (`Decimal.code_shortest`).
-/

namespace Placement
set_option autoImplicit false

namespace Decimal

/-! ## Values of decimals -/

theorem toRat_eq (d : Decimal) : d.toRat = (d.digits : ℚ) * (10 : ℚ) ^ d.exponent := by
  unfold toRat
  split_ifs with h
  · obtain ⟨k, hk⟩ : ∃ k : ℕ, d.exponent = -(k : ℤ) := ⟨(-d.exponent).toNat, by omega⟩
    rw [hk, Int.neg_neg, Int.toNat_natCast, zpow_neg, zpow_natCast, Rat.mkRat_eq_div, Nat.pow_eq]
    push_cast
    rw [div_eq_mul_inv]
  · obtain ⟨k, hk⟩ : ∃ k : ℕ, d.exponent = k := ⟨d.exponent.toNat, by omega⟩
    rw [hk, Int.toNat_natCast, zpow_natCast, Rat.mkRat_eq_div, Nat.pow_eq]
    push_cast
    rw [div_one]

theorem toRat_eq_zero_iff (d : Decimal) : d.toRat = 0 ↔ d.digits = 0 := by
  rw [toRat_eq, mul_eq_zero, or_iff_left (zpow_ne_zero _ (by norm_num)), Nat.cast_eq_zero]

theorem width_pos (n : ℕ) : 0 < width n := List.length_pos_iff.2 (Numeral.digits_ne_nil n)

theorem width_of_le {n : ℕ} (h : 10 ≤ n) : width n = width (n / 10) + 1 := by
  rw [width, Numeral.digits_of_le h, List.length_append]
  rfl

theorem width_bounds {n : ℕ} (hn : 0 < n) : 10 ^ (width n - 1) ≤ n ∧ n < 10 ^ width n := by
  induction n using Nat.strong_induction_on with
  | _ n ih =>
    rcases Nat.lt_or_ge n 10 with h | h
    · have hwidth : width n = 1 := by rw [width, Numeral.digits_of_lt h, List.length_singleton]
      rw [hwidth]
      omega
    · obtain ⟨hlow, hhigh⟩ := ih (n / 10) (by omega) (by omega)
      obtain ⟨w, hw⟩ : ∃ w, width (n / 10) = w + 1 := ⟨width (n / 10) - 1, by have := width_pos (n / 10); omega⟩
      rw [hw, Nat.add_sub_cancel] at hlow
      rw [hw, pow_succ] at hhigh
      rw [width_of_le h, hw, Nat.add_sub_cancel, pow_succ, pow_succ]
      omega

/-! ## What a decimal rounds to -/

/-- Zeros at the end make no difference. -/
theorem code_shift {n : ℕ} (hn : 0 < n) (e : ℤ) : code ⟨10 * n, e⟩ = code ⟨n, e + 1⟩ := by
  have hwidth : width (10 * n) = width n + 1 := by
    rw [width_of_le (by omega), Nat.mul_div_cancel_left n (by decide)]
  have htop : e + (width n + 1 : ℕ) = e + 1 + width n := by
    push_cast
    ring
  have hexpand : (if e < 0 then Double.codeOfQuotient (10 * n) (Nat.pow 10 (-e).toNat)
        else Double.codeOfQuotient (10 * n * Nat.pow 10 e.toNat) 1) =
      if e + 1 < 0 then Double.codeOfQuotient n (Nat.pow 10 (-(e + 1)).toNat)
        else Double.codeOfQuotient (n * Nat.pow 10 (e + 1).toNat) 1 := by
    simp only [Nat.pow_eq]
    obtain h | rfl | h : e + 1 < 0 ∨ e = -1 ∨ 0 ≤ e := by omega
    · obtain ⟨k, hk⟩ : ∃ k : ℕ, (-(e + 1)).toNat = k ∧ (-e).toNat = k + 1 := ⟨_, rfl, by omega⟩
      rw [if_pos h, if_pos (by omega), hk.1, hk.2, pow_succ']
      exact Double.codeOfQuotient_scale (by decide) (by positivity) n
    · have := Double.codeOfQuotient_scale (k := 10) (by decide) Nat.one_pos n
      simpa using this
    · obtain ⟨k, hk⟩ : ∃ k : ℕ, e.toNat = k ∧ (e + 1).toNat = k + 1 := ⟨_, rfl, by omega⟩
      rw [if_neg (by omega), if_neg (by omega), hk.1, hk.2, pow_succ', Nat.mul_comm 10 n, Nat.mul_assoc]
  simp only [code, hwidth, htop, hn.ne', Nat.mul_eq_zero, OfNat.ofNat_ne_zero, false_or, hexpand]

theorem code_shift_many {n : ℕ} (hn : 0 < n) (k : ℕ) (e : ℤ) : code ⟨10 ^ k * n, e⟩ = code ⟨n, e + k⟩ := by
  induction k generalizing e with
  | zero => simp
  | succ k ih =>
    rw [pow_succ', Nat.mul_assoc, code_shift (by positivity), ih]
    push_cast
    rw [add_right_comm, add_assoc]

theorem code_congr {d d' : Decimal} (h : d.toRat = d'.toRat) : d.code = d'.code := by
  -- Of two decimals with one value the one with the greater exponent has fewer zeros at its end.
  have hordered (d d' : Decimal) (h : d.toRat = d'.toRat) (hle : d.exponent ≤ d'.exponent) : d.code = d'.code := by
    rcases Nat.eq_zero_or_pos d'.digits with hzero | hpos
    · have hzero' : d.digits = 0 := (toRat_eq_zero_iff d).1 (h.trans ((toRat_eq_zero_iff d').2 hzero))
      simp [code, hzero, hzero']
    · obtain ⟨k, hk⟩ : ∃ k : ℕ, d'.exponent = d.exponent + k := ⟨(d'.exponent - d.exponent).toNat, by omega⟩
      have hdigits : d.digits = 10 ^ k * d'.digits := by
        have hten : (10 : ℚ) ^ d.exponent ≠ 0 := zpow_ne_zero _ (by norm_num)
        rw [toRat_eq, toRat_eq, hk, zpow_add₀ (by norm_num), zpow_natCast, mul_comm ((10 : ℚ) ^ d.exponent),
          ← mul_assoc] at h
        have := mul_right_cancel₀ hten h
        rw [mul_comm] at this
        exact_mod_cast this
      have := code_shift_many hpos k d.exponent
      rwa [← hdigits, ← hk] at this
  rcases le_total d.exponent d'.exponent with hle | hle
  · exact hordered d d' h hle
  · exact (hordered d' d h.symm hle).symm

/-! ## Decimals of doubles -/

/-- The digits of a decimal begin between two powers of ten. -/
theorem toRat_bounds {d : Decimal} (hd : 0 < d.digits) :
    (10 : ℚ) ^ (d.exponent + width d.digits - 1) ≤ d.toRat ∧ d.toRat < (10 : ℚ) ^ (d.exponent + width d.digits) := by
  obtain ⟨hlow, hhigh⟩ := width_bounds hd
  have hten : (0 : ℚ) < (10 : ℚ) ^ d.exponent := zpow_pos (by norm_num) _
  have hpred : d.exponent + (width d.digits : ℤ) - 1 = (width d.digits - 1 : ℕ) + d.exponent := by
    have := width_pos d.digits
    omega
  rw [toRat_eq, hpred, add_comm d.exponent, zpow_add₀ (by norm_num), zpow_add₀ (by norm_num), zpow_natCast,
    zpow_natCast]
  exact ⟨mul_le_mul_of_nonneg_right (by exact_mod_cast hlow) hten.le,
    mul_lt_mul_of_pos_right (by exact_mod_cast hhigh) hten⟩

/-- Finite magnitudes lie between these powers of two. -/
theorem quotient_bounds {target : ℕ} (hpos : 0 < target) (hlimit : target < codeLimit) :
    (2 : ℚ) ^ (-1074 : ℤ) ≤ ((Double.quotient target).1 : ℚ) / (Double.quotient target).2 ∧
      ((Double.quotient target).1 : ℚ) / (Double.quotient target).2 ≤ (2 : ℚ) ^ (1024 : ℤ) := by
  have hpow : Nat.pow 2 52 = 4503599627370496 := rfl
  obtain ⟨hshort, hleast, hlong, hcode⟩ := Double.parts_spec target
  rw [codeLimit, hpow] at hlimit
  rw [hpow] at hcode
  rw [Double.quotient_value]
  have hone : (1 : ℚ) ≤ (Double.parts target).1 := by
    have : 1 ≤ (Double.parts target).1 := by omega
    exact_mod_cast this
  constructor
  · calc (2 : ℚ) ^ (-1074 : ℤ) ≤ 2 ^ (Double.parts target).2 := zpow_le_zpow_right₀ one_le_two hleast
      _ ≤ (Double.parts target).1 * 2 ^ (Double.parts target).2 :=
        le_mul_of_one_le_left (zpow_pos two_pos _).le hone
  · have he : (Double.parts target).2 ≤ 971 := by omega
    have htop : ((53 : ℕ) : ℤ) + 971 = 1024 := rfl
    rw [← htop]
    exact Double.mul_zpow_le hshort.le he

theorem least_powers : (2 : ℚ) ^ 1074 < 10 ^ 331 := by
  have : 2 ^ 1074 < 10 ^ 331 := by decide +kernel
  exact_mod_cast this

theorem greatest_powers : (2 : ℚ) ^ 1024 < 10 ^ 310 := by
  have : 2 ^ 1024 < 10 ^ 310 := by decide +kernel
  exact_mod_cast this

/-- A decimal between these powers is neither too small nor too large to be rounded. -/
theorem exponent_bounds {d : Decimal} (hd : 0 < d.digits) (hleast : (2 : ℚ) ^ (-1074 : ℤ) ≤ d.toRat)
    (hgreatest : d.toRat ≤ (2 : ℚ) ^ (1024 : ℤ)) :
    ¬ d.exponent + (width d.digits : ℤ) < -330 ∧ ¬ 310 < d.exponent + (width d.digits : ℤ) := by
  obtain ⟨hlow, hhigh⟩ := toRat_bounds hd
  constructor
  · intro htop
    have hpowers : (10 : ℚ) ^ (-331 : ℤ) < 2 ^ (-1074 : ℤ) := inv_strictAnti₀ (by positivity) least_powers
    have hle : (10 : ℚ) ^ (d.exponent + (width d.digits : ℤ)) ≤ 10 ^ (-331 : ℤ) :=
      zpow_le_zpow_right₀ (by norm_num) (by omega)
    exact absurd (hleast.trans_lt (hhigh.trans_le hle)) (not_lt.2 hpowers.le)
  · intro htop
    have hpowers : (2 : ℚ) ^ (1024 : ℤ) < 10 ^ (310 : ℤ) := greatest_powers
    have hle : (10 : ℚ) ^ (310 : ℤ) ≤ 10 ^ (d.exponent + (width d.digits : ℤ) - 1) :=
      zpow_le_zpow_right₀ (by norm_num) (by omega)
    exact absurd (hle.trans (hlow.trans hgreatest)) (not_le.2 hpowers)

/-- A decimal with the value of a double rounds to it. -/
theorem code_of_toRat {d : Decimal} {target : ℕ} (hpos : 0 < target) (hlimit : target < codeLimit)
    (h : d.toRat = ((Double.quotient target).1 : ℚ) / (Double.quotient target).2) : d.code = target := by
  obtain ⟨hleast, hgreatest⟩ := quotient_bounds hpos hlimit
  rw [← h] at hleast hgreatest
  have hd : 0 < d.digits := by
    refine Nat.pos_of_ne_zero fun hzero => ?_
    rw [(toRat_eq_zero_iff d).2 hzero] at hleast
    exact absurd hleast (not_le.2 (zpow_pos two_pos _))
  obtain ⟨hsmall, hlarge⟩ := exponent_bounds hd hleast hgreatest
  have hden := Double.quotient_den_pos target
  simp only [code, hd.ne', hsmall, hlarge, or_self, if_false, Nat.pow_eq]
  rw [toRat_eq] at h
  split_ifs with hsign
  · obtain ⟨k, hk⟩ : ∃ k : ℕ, d.exponent = -(k : ℤ) := ⟨(-d.exponent).toNat, by omega⟩
    rw [hk, zpow_neg, zpow_natCast, ← div_eq_mul_inv] at h
    rw [hk, Int.neg_neg, Int.toNat_natCast]
    refine (Double.codeOfQuotient_congr (by positivity) hden ?_).trans (Double.codeOfQuotient_quotient target)
    exact_mod_cast h
  · obtain ⟨k, hk⟩ : ∃ k : ℕ, d.exponent = k := ⟨d.exponent.toNat, by omega⟩
    rw [hk, zpow_natCast] at h
    rw [hk, Int.toNat_natCast]
    refine (Double.codeOfQuotient_congr one_pos hden ?_).trans (Double.codeOfQuotient_quotient target)
    rw [← h, Nat.cast_one, div_one]
    push_cast
    rfl

/-! ## The search -/

variable {target num den : ℕ} {d : Decimal} {e : ℤ}

theorem code_of_neighbour? (h : neighbour? target num den e = some d) : d.code = target := by
  unfold neighbour? at h
  dsimp only at h
  split_ifs at h with hlow hhigh hhigh
  · cases h
    unfold Double.divNearest
    dsimp only
    split_ifs <;> assumption
  · cases h
    exact hlow
  · cases h
    exact hhigh

/-- The exact expansion of a double. -/
theorem toRat_exact (target : ℕ) (e : ℤ) :
    (search target num den 0 e).toRat = ((Double.quotient target).1 : ℚ) / (Double.quotient target).2 := by
  rw [Double.quotient_value, search]
  dsimp only
  split_ifs with h
  · obtain ⟨k, hk⟩ : ∃ k : ℕ, (Double.parts target).2 = -(k : ℤ) := ⟨(-(Double.parts target).2).toNat, by omega⟩
    rw [toRat_eq, hk, Int.neg_neg, Int.toNat_natCast, Nat.pow_eq, zpow_neg, zpow_neg, zpow_natCast, zpow_natCast]
    have hten : (10 : ℚ) ^ k = 5 ^ k * 2 ^ k := by rw [← mul_pow]; norm_num
    push_cast
    rw [hten]
    field_simp
  · obtain ⟨k, hk⟩ : ∃ k : ℕ, (Double.parts target).2 = k := ⟨(Double.parts target).2.toNat, by omega⟩
    rw [toRat_eq, hk, Int.toNat_natCast, Nat.pow_eq, zpow_natCast, zpow_zero, mul_one]
    push_cast
    rfl

theorem code_search (hpos : 0 < target) (hlimit : target < codeLimit) (fuel : ℕ) (e : ℤ) :
    (search target num den fuel e).code = target := by
  induction fuel generalizing e with
  | zero => exact code_of_toRat hpos hlimit (toRat_exact target e)
  | succ fuel ih =>
    rw [search]
    split
    · rename_i d hd
      exact code_of_neighbour? hd
    · exact ih (e - 1)

theorem code_trimmed (fuel : ℕ) (d : Decimal) : (trimmed fuel d).code = d.code := by
  induction fuel generalizing d with
  | zero => rfl
  | succ fuel ih =>
    rw [trimmed]
    split_ifs with h
    · rw [ih, ← code_shift (by omega), Nat.mul_div_cancel' (Nat.dvd_of_mod_eq_zero h.2)]
    · rfl

theorem code_shortest (hlimit : target < codeLimit) : (shortest target).code = target := by
  unfold shortest
  split_ifs with h
  · rw [h]
    rfl
  · exact (code_trimmed 20 _).trans (code_search (Nat.pos_of_ne_zero h) hlimit 17 _)

end Decimal
end Placement
