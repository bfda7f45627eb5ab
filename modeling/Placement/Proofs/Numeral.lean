import Mathlib
import Placement.Numeral

/-!
# Digits read back

The decimal digits of a number read as that number (`Numeral.value?_digits`), also with zeros in front of
them or behind (`Numeral.valueFrom?_append` says what reading does with a text in two parts).  Integers of
too many digits, which are not written, are those from a power of ten on (`Numeral.writable_iff`).
-/

namespace Placement.Numeral
set_option autoImplicit false

/-! ## Single digits -/

theorem isDecimal_digitChar {d : Nat} (h : d < 10) : isDecimal (digitChar d) = true := by
  interval_cases d <;> decide

theorem digitIn?_digitChar {d : Nat} (h : d < 10) : digitIn? 10 (digitChar d) = some d := by
  interval_cases d <;> decide

theorem digitIn?_hexadecimal {d : Nat} (h : d < 16) : digitIn? 16 (digitChar d) = some d := by
  interval_cases d <;> decide

/-! ## Runs of digits -/

theorem digitsOnto_eq (n : Nat) (tail : List Char) : digitsOnto n tail = digits n ++ tail := by
  induction n using Nat.strong_induction_on generalizing tail with
  | _ n ih =>
    have hstep : ∀ tail, digitsOnto n tail =
        if n < 10 then digitChar n :: tail else digitsOnto (n / 10) (digitChar (n % 10) :: tail) := by
      intro tail
      rw [digitsOnto]
    rw [digits, hstep, hstep []]
    split_ifs with h
    · rfl
    · have hlt : n / 10 < n := by omega
      rw [ih _ hlt, ih _ hlt [digitChar (n % 10)], List.append_assoc]
      rfl

theorem digits_of_lt {n : Nat} (h : n < 10) : digits n = [digitChar n] := by
  rw [digits, digitsOnto, if_pos h]

theorem digits_of_le {n : Nat} (h : 10 ≤ n) : digits n = digits (n / 10) ++ [digitChar (n % 10)] := by
  rw [digits, digitsOnto, if_neg (Nat.not_lt.2 h), digitsOnto_eq]

/-- What holds of every single digit holds of all digits of a number. -/
theorem forall_mem_digits {p : Char → Prop} (hp : ∀ d < 10, p (digitChar d)) (n : Nat) :
    ∀ c ∈ digits n, p c := by
  induction n using Nat.strong_induction_on with
  | _ n ih =>
    rcases Nat.lt_or_ge n 10 with h | h
    · rw [digits_of_lt h]
      simpa using hp n h
    · rw [digits_of_le h, List.forall_mem_append]
      refine ⟨ih _ (by omega), ?_⟩
      simpa using hp _ (Nat.mod_lt n (by decide))

theorem isDecimal_of_mem_digits (n : Nat) : ∀ c ∈ digits n, isDecimal c = true :=
  forall_mem_digits (fun _ => isDecimal_digitChar) n

theorem digits_ne_nil (n : Nat) : digits n ≠ [] := by
  rcases Nat.lt_or_ge n 10 with h | h
  · simp [digits_of_lt h]
  · simp [digits_of_le h]

theorem digits_zero : digits 0 = ['0'] := digits_of_lt (by decide)

/-- No zero stands in front of the digits of a positive number. -/
theorem exists_digits_eq_cons {n : ℕ} (hn : 0 < n) :
    ∃ c cs, digits n = c :: cs ∧ isDecimal c = true ∧ c ≠ '0' := by
  induction n using Nat.strong_induction_on with
  | _ n ih =>
    rcases Nat.lt_or_ge n 10 with h | h
    · refine ⟨digitChar n, [], digits_of_lt h, isDecimal_digitChar h, ?_⟩
      interval_cases n <;> decide
    · obtain ⟨c, cs, hcs, hc, hzero⟩ := ih (n / 10) (by omega) (by omega)
      exact ⟨c, cs ++ [digitChar (n % 10)], by rw [digits_of_le h, hcs, List.cons_append], hc, hzero⟩

theorem length_digits_le_iff {k : ℕ} (hk : 1 ≤ k) (n : ℕ) : (digits n).length ≤ k ↔ n < 10 ^ k := by
  induction k, hk using Nat.le_induction generalizing n with
  | base =>
    rcases Nat.lt_or_ge n 10 with h | h
    · simp [digits_of_lt h, h]
    · have hfront := List.length_pos_of_ne_nil (digits_ne_nil (n / 10))
      rw [digits_of_le h, List.length_append, List.length_singleton]
      omega
  | succ k hk ih =>
    rcases Nat.lt_or_ge n 10 with h | h
    · have hpow : 10 ^ 1 ≤ 10 ^ (k + 1) := Nat.pow_le_pow_right (by decide) (by omega)
      rw [digits_of_lt h, List.length_singleton]
      exact iff_of_true (by omega) (by omega)
    · rw [digits_of_le h, List.length_append, List.length_singleton, Nat.add_le_add_iff_right, ih,
        Nat.div_lt_iff_lt_mul (by decide), ← pow_succ]

/-! ## Reading -/

theorem valueFrom?_append (base acc : Nat) (cs ds : List Char) :
    valueFrom? base acc (cs ++ ds) = (valueFrom? base acc cs).bind fun n => valueFrom? base n ds := by
  induction cs generalizing acc with
  | nil => rfl
  | cons c cs ih =>
    rw [List.cons_append, valueFrom?, valueFrom?]
    cases digitIn? base c with
    | none => rfl
    | some d => exact ih _

theorem value?_of_ne_nil {cs : List Char} (h : cs ≠ []) (base : Nat) :
    value? base cs = valueFrom? base 0 cs := by
  rw [value?, List.isEmpty_eq_false_iff.2 h]
  rfl

/-- Digits that are read behind others push those to the left. -/
theorem valueFrom?_digits (acc n : Nat) :
    valueFrom? 10 acc (digits n) = some (acc * 10 ^ (digits n).length + n) := by
  induction n using Nat.strong_induction_on with
  | _ n ih =>
    rcases Nat.lt_or_ge n 10 with h | h
    · simp [digits_of_lt h, valueFrom?, digitIn?_digitChar h]
    · have hlast := digitIn?_digitChar (Nat.mod_lt n (by decide : 10 > 0))
      have hn := Nat.div_add_mod n 10
      rw [digits_of_le h, valueFrom?_append, ih _ (by omega), Option.bind_some, valueFrom?, hlast]
      simp only [valueFrom?, List.length_append, List.length_singleton, pow_succ, Option.some.injEq]
      rw [Nat.add_mul, Nat.mul_assoc]
      omega

theorem value?_digits (n : Nat) : value? 10 (digits n) = some n := by
  rw [value?_of_ne_nil (digits_ne_nil n), valueFrom?_digits, Nat.zero_mul, Nat.zero_add]

theorem valueFrom?_zeros (acc k : Nat) :
    valueFrom? 10 acc (List.replicate k '0') = some (acc * 10 ^ k) := by
  have hzero : digitIn? 10 '0' = some 0 := by decide
  induction k generalizing acc with
  | zero => simp [valueFrom?]
  | succ k ih =>
    rw [List.replicate_succ, valueFrom?, hzero]
    simp only
    rw [ih, Nat.add_zero, pow_succ', Nat.mul_assoc]

theorem value?_padded (width n : Nat) : value? 10 (padded width n) = some n := by
  have hne : padded width n ≠ [] := by simp [padded, digits_ne_nil]
  rw [value?_of_ne_nil hne, padded, valueFrom?_append, valueFrom?_zeros, Nat.zero_mul, Option.bind_some,
    valueFrom?_digits, Nat.zero_mul, Nat.zero_add]

/-! ## Texts -/

theorem toList_ofNat (n : ℕ) : (ofNat n).toList = digits n := String.toList_ofList

theorem toList_ofInt_negSucc (n : ℕ) : (ofInt (.negSucc n)).toList = '-' :: digits (n + 1) := by
  rw [ofInt, String.toList_append, toList_ofNat]
  rfl

/-! ## Writing -/

theorem writable_iff (i : ℤ) : Writable i ↔ i.natAbs < 10 ^ digitLimit :=
  length_digits_le_iff (by decide) i.natAbs

theorem written_of_writable {i : ℤ} (h : Writable i) : written i = .ok (ofInt i) := if_pos h

theorem written_of_not_writable {i : ℤ} (h : ¬ Writable i) : written i = .error .digits := if_neg h

theorem not_writable_of_le {n : ℕ} (h : 10 ^ digitLimit ≤ n) : ¬ Writable n := by
  rw [writable_iff, Int.natAbs_natCast, not_lt]
  exact h

/-- The least positive integer that has too many digits. -/
def overlong : ℤ := (10 ^ digitLimit : ℕ)

theorem two_le_overlong : 2 ≤ overlong := by
  have hpow : 10 ^ 1 ≤ 10 ^ digitLimit := Nat.pow_le_pow_right (by decide) (by decide)
  exact Int.ofNat_le.2 (le_trans (by decide) hpow)

theorem not_writable_overlong : ¬ Writable overlong := not_writable_of_le le_rfl

end Placement.Numeral
