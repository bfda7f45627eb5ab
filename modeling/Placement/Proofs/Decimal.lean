import Placement.Decimal
import Placement.Proofs.Numeral

/-!
# Decimal texts read back

`Double.stated?` is the value of the text of a double, read as a decimal literal.  It is the value of the
decimal that was laid out (`Double.stated?_eq`), in positional as in scientific layout.
-/

namespace Placement
set_option autoImplicit false

open Numeral

/-- The rational value that the text of a double states, if it is a decimal literal with a sign or without. -/
def Double.stated? (d : Double) : Option Rat :=
  match Decimal.takeSign d.text.toList with
  | (negative, body) =>
    (Decimal.ofLiteral? body).map fun decimal => if negative then -decimal.toRat else decimal.toRat

namespace Decimal

/-! ## Reading literals -/

theorem takeSign_of_isDecimal {c : Char} (h : isDecimal c = true) (cs : List Char) :
    takeSign (c :: cs) = (false, c :: cs) := by
  have hminus : c ≠ '-' := by
    rintro rfl
    exact absurd h (by decide)
  have hplus : c ≠ '+' := by
    rintro rfl
    exact absurd h (by decide)
  unfold takeSign
  split <;> simp_all

/-- Digits with a point among them. -/
theorem ofLiteral?_point {whole fraction : List Char} (hwhole : ∀ c ∈ whole, isDecimal c = true)
    (hfraction : ∀ c ∈ fraction, isDecimal c = true) :
    ofLiteral? (whole ++ '.' :: fraction) =
      (value? 10 (whole ++ fraction)).map fun n => ⟨n, -(fraction.length : Int)⟩ := by
  have hpoint : isDecimal '.' = false := by decide
  simp only [ofLiteral?, List.takeWhile_append_of_pos hwhole, List.dropWhile_append_of_pos hwhole,
    List.takeWhile_cons, List.dropWhile_cons, hpoint, Bool.false_eq_true, if_false, List.append_nil,
    List.takeWhile_eq_self_iff.2 hfraction, List.dropWhile_eq_nil_iff.2 hfraction]
  cases value? 10 (whole ++ fraction) <;> rfl

/-- Digits with a point behind the first one, if they are more than one, and an exponent. -/
theorem ofLiteral?_mark {whole fraction more : List Char} (hwhole : ∀ c ∈ whole, isDecimal c = true)
    (hfraction : ∀ c ∈ fraction, isDecimal c = true) :
    ofLiteral? (whole ++ '.' :: (fraction ++ 'e' :: more)) =
      (value? 10 (whole ++ fraction)).bind fun n =>
        (exponent? more).map fun e => ⟨n, e - fraction.length⟩ := by
  have hpoint : isDecimal '.' = false := by decide
  have hmark : isDecimal 'e' = false := by decide
  simp only [ofLiteral?, List.takeWhile_append_of_pos hwhole, List.dropWhile_append_of_pos hwhole,
    List.takeWhile_append_of_pos hfraction, List.dropWhile_append_of_pos hfraction,
    List.takeWhile_cons, List.dropWhile_cons, hpoint, hmark, Bool.false_eq_true, if_false, List.append_nil]
  cases value? 10 (whole ++ fraction) <;> rfl

theorem ofLiteral?_whole_mark {whole more : List Char} (hwhole : ∀ c ∈ whole, isDecimal c = true) :
    ofLiteral? (whole ++ 'e' :: more) =
      (value? 10 whole).bind fun n => (exponent? more).map fun e => ⟨n, e⟩ := by
  have hmark : isDecimal 'e' = false := by decide
  simp only [ofLiteral?, List.takeWhile_append_of_pos hwhole, List.dropWhile_append_of_pos hwhole,
    List.takeWhile_cons, List.dropWhile_cons, hmark, Bool.false_eq_true, if_false, List.append_nil]
  cases hvalue : value? 10 whole with
  | none => simp [hvalue]
  | some n => simp [hvalue]

theorem exponent?_signed (top : Int) :
    exponent? ((if top < 0 then '-' else '+') :: padded 2 top.natAbs) = some top := by
  split_ifs with h
  · have hsign : takeSign ('-' :: padded 2 top.natAbs) = (true, padded 2 top.natAbs) := rfl
    rw [exponent?, hsign]
    simp only [value?_padded, Option.bind_eq_bind, Option.bind_some, Option.pure_def, Option.map_some, if_true,
      Option.some.injEq]
    omega
  · have hsign : takeSign ('+' :: padded 2 top.natAbs) = (false, padded 2 top.natAbs) := rfl
    rw [exponent?, hsign]
    simp only [value?_padded, Option.bind_eq_bind, Option.bind_some, Option.pure_def, Option.map_some,
      Bool.false_eq_true, if_false, Option.some.injEq]
    omega

/-! ## Reading what was laid out -/

theorem toRat_shift (n k : Nat) : (⟨n * 10 ^ (k + 1), -1⟩ : Decimal).toRat = (⟨n, k⟩ : Decimal).toRat := by
  have hk : ¬ (k : Int) < 0 := by omega
  simp only [toRat, hk, if_false, Int.reduceNeg, Int.reduceLT, if_true, Int.neg_neg, Int.toNat_one,
    Int.toNat_natCast, Nat.pow_eq, pow_succ, ← Nat.mul_assoc]
  rw [Rat.mkRat_eq_iff (by decide) (by decide)]
  push_cast
  ring

theorem isDecimal_zeros (k : Nat) : ∀ c ∈ List.replicate k '0', isDecimal c = true := by
  intro c hc
  rw [List.eq_of_mem_replicate hc]
  decide

theorem ofLiteral?_zeros_behind (d : Decimal) {k : Nat} (hk : d.exponent = k) :
    ∃ e, ofLiteral? (positional (Numeral.digits d.digits) d.exponent) = some e ∧ e.toRat = d.toRat := by
  have hwhole : ∀ c ∈ Numeral.digits d.digits ++ List.replicate k '0', isDecimal c = true :=
    List.forall_mem_append.2 ⟨isDecimal_of_mem_digits d.digits, isDecimal_zeros k⟩
  have hvalue : value? 10 (Numeral.digits d.digits ++ List.replicate k '0' ++ List.replicate 1 '0') =
      some (d.digits * 10 ^ (k + 1)) := by
    rw [value?_of_ne_nil (by simp [digits_ne_nil]), List.append_assoc, ← List.replicate_add, valueFrom?_append,
      valueFrom?_digits, Option.bind_some, valueFrom?_zeros, Nat.zero_mul, Nat.zero_add]
  have hread := ofLiteral?_point hwhole (isDecimal_zeros 1)
  rw [hvalue] at hread
  refine ⟨⟨d.digits * 10 ^ (k + 1), -1⟩, ?_, ?_⟩
  · rw [positional, if_pos (by omega), hk, Int.toNat_natCast]
    exact hread
  · rw [toRat_shift, ← hk]

theorem ofLiteral?_point_inside (d : Decimal) {k : Nat} (hk : d.exponent = -(k : Int)) (hpos : 0 < k) :
    ofLiteral? (positional (Numeral.digits d.digits) d.exponent) = some d := by
  have hdigits := isDecimal_of_mem_digits d.digits
  have hplaces : (-d.exponent).toNat = k := by omega
  have hd : (⟨d.digits, -(k : Int)⟩ : Decimal) = d := by rw [← hk]
  rw [positional, if_neg (by omega), hplaces]
  generalize hds : Numeral.digits d.digits = ds at hdigits ⊢
  have hvalue : value? 10 ds = some d.digits := by rw [← hds, value?_digits]
  rcases Nat.lt_or_ge k ds.length with h | h
  · -- The point stands within the digits.
    have hwhole : (ds.take (ds.length - k)).isEmpty = false := by
      rw [List.isEmpty_eq_false_iff, ← List.length_pos_iff, List.length_take]
      omega
    have hread := ofLiteral?_point
      (fun c hc => hdigits c (List.mem_of_mem_take (i := ds.length - k) hc))
      (fun c hc => hdigits c (List.mem_of_mem_drop (i := ds.length - k) hc))
    rw [List.take_append_drop, hvalue, Option.map_some, List.length_drop, Nat.sub_sub_self h.le, hd] at hread
    simpa [hwhole, Nat.sub_eq_zero_of_le h.le] using hread
  · -- The digits begin at the point or behind zeros.
    have hfraction : ∀ c ∈ List.replicate (k - ds.length) '0' ++ ds, isDecimal c = true :=
      List.forall_mem_append.2 ⟨isDecimal_zeros _, hdigits⟩
    have hlength : (List.replicate (k - ds.length) '0' ++ ds).length = k := by
      rw [List.length_append, List.length_replicate, Nat.sub_add_cancel h]
    have hzeros : value? 10 (List.replicate 1 '0' ++ (List.replicate (k - ds.length) '0' ++ ds)) =
        some d.digits := by
      rw [value?_of_ne_nil (by simp), ← List.append_assoc, ← List.replicate_add, valueFrom?_append,
        valueFrom?_zeros, Nat.zero_mul, Option.bind_some, ← hds, valueFrom?_digits, Nat.zero_mul, Nat.zero_add]
    have hread := ofLiteral?_point (isDecimal_zeros 1) hfraction
    rw [hzeros, Option.map_some, hlength, hd] at hread
    simpa [Nat.sub_eq_zero_of_le h] using hread

/-- Positional layout moves the point within the digits or fills up with zeros on one side of them. -/
theorem ofLiteral?_positional (d : Decimal) :
    ∃ e, ofLiteral? (positional (Numeral.digits d.digits) d.exponent) = some e ∧ e.toRat = d.toRat := by
  rcases lt_or_ge d.exponent 0 with h | h
  · refine ⟨d, ofLiteral?_point_inside d (k := d.exponent.natAbs) ?_ ?_, rfl⟩ <;> omega
  · exact ofLiteral?_zeros_behind d (k := d.exponent.toNat) (by omega)

theorem ofLiteral?_scientific (d : Decimal) :
    ofLiteral? (scientific (Numeral.digits d.digits) (d.exponent + (Numeral.digits d.digits).length - 1)) =
      some d := by
  have hdigits := isDecimal_of_mem_digits d.digits
  have hvalue := value?_digits d.digits
  cases hds : Numeral.digits d.digits with
  | nil => exact absurd hds (digits_ne_nil _)
  | cons c rest =>
    rw [hds] at hdigits hvalue
    cases rest with
    | nil =>
      have hread : ofLiteral? ([c] ++ 'e' :: (if d.exponent < 0 then '-' else '+') ::
          padded 2 d.exponent.natAbs) = _ := ofLiteral?_whole_mark hdigits
      rw [hvalue, exponent?_signed, Option.bind_some, Option.map_some] at hread
      simpa [scientific] using hread
    | cons c' rest =>
      rw [List.forall_mem_cons] at hdigits
      have hwhole : ∀ x ∈ [c], isDecimal x = true := List.forall_mem_singleton.2 hdigits.1
      obtain ⟨top, htop⟩ : ∃ top, top = d.exponent + ((c' :: rest).length : Int) := ⟨_, rfl⟩
      have hlength : d.exponent + ((c :: c' :: rest).length : Int) - 1 = top := by
        rw [htop, List.length_cons]
        omega
      have hread : ofLiteral? ([c] ++ '.' :: ((c' :: rest) ++ 'e' :: (if top < 0 then '-' else '+') ::
          padded 2 top.natAbs)) = _ := ofLiteral?_mark hwhole hdigits.2
      rw [List.singleton_append, List.singleton_append, hvalue, exponent?_signed, Option.bind_some,
        Option.map_some, htop, add_sub_cancel_right, ← htop] at hread
      rw [hlength]
      simpa [scientific] using hread

theorem ofLiteral?_text (d : Decimal) : ∃ e, ofLiteral? d.text = some e ∧ e.toRat = d.toRat := by
  unfold text
  simp only
  split_ifs
  · exact ofLiteral?_positional d
  · exact ⟨d, ofLiteral?_scientific d, rfl⟩

theorem positional_eq_cons {c : Char} (h : isDecimal c = true) (cs : List Char) (exponent : Int) :
    ∃ c' cs', isDecimal c' = true ∧ positional (c :: cs) exponent = c' :: cs' := by
  unfold positional
  split_ifs with hexponent
  · exact ⟨c, _, h, rfl⟩
  · simp only
    cases (c :: cs).length - (-exponent).toNat with
    | zero => exact ⟨'0', _, by decide, rfl⟩
    | succ n => exact ⟨c, _, h, rfl⟩

theorem scientific_eq_cons (c : Char) (cs : List Char) (top : Int) :
    ∃ cs', scientific (c :: cs) top = c :: cs' := by
  cases cs <;> exact ⟨_, rfl⟩

/-- No layout begins with a sign. -/
theorem takeSign_text (d : Decimal) : takeSign d.text = (false, d.text) := by
  have hdigits := isDecimal_of_mem_digits d.digits
  obtain ⟨c, cs, hds⟩ := List.exists_cons_of_ne_nil (digits_ne_nil d.digits)
  have hc : isDecimal c = true := hdigits c (hds ▸ List.mem_cons_self)
  have hfirst : ∃ c' cs', isDecimal c' = true ∧ d.text = c' :: cs' := by
    unfold text
    simp only [hds]
    split_ifs
    · exact positional_eq_cons hc cs _
    · obtain ⟨cs', hcs⟩ := scientific_eq_cons c cs (d.exponent + ((c :: cs).length : Int) - 1)
      exact ⟨c, cs', hc, hcs⟩
  obtain ⟨c', cs', hc', htext⟩ := hfirst
  rw [htext, takeSign_of_isDecimal hc']

end Decimal

namespace Double

/-- The value of a double's text is the value of the decimal that the text lays out. -/
theorem stated?_eq (d : Double) : d.stated? = d.decimalValue? := by
  cases d with
  | nan => decide
  | infinite negative => cases negative <;> decide
  | finite negative code =>
    obtain ⟨e, hread, hvalue⟩ := Decimal.ofLiteral?_text (Decimal.shortest code.val)
    have hbody := Decimal.takeSign_text (Decimal.shortest code.val)
    cases negative with
    | false =>
      have htext : (Double.finite false code).text.toList = (Decimal.shortest code.val).text := by
        simp [text, signed]
      simp [stated?, htext, hbody, hread, hvalue, decimalValue?]
    | true =>
      have htext : (Double.finite true code).text.toList = '-' :: (Decimal.shortest code.val).text := by
        simp [text, signed]
      have hsign (cs : List Char) : Decimal.takeSign ('-' :: cs) = (true, cs) := rfl
      simp [stated?, htext, hsign, hread, hvalue, decimalValue?]

end Double
end Placement
