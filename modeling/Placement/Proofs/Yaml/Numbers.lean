import Placement.Config.File
import Placement.Proofs.Shortest

/-!
# Numbers as plain scalars

A text of digits with a point among them is a plain scalar with the tag `float`, and digits alone have the tag `int`,
with a minus sign or without.  Either reads as the number it is made of: `withPoint_double` says so for finite doubles,
`int_digits` for integers.
-/

namespace Placement.Yaml
set_option autoImplicit false

open Numeral

/-! ## Characters of numbers -/

theorem eq_digitChar_of_isDecimal {c : Char} (h : isDecimal c = true) : ∃ d < 10, c = digitChar d := by
  have hbounds : 48 ≤ c.toNat ∧ c.toNat ≤ 57 := by
    simpa [isDecimal, Char.le_def, UInt32.le_iff_toNat_le] using h
  refine ⟨c.toNat - 48, by omega, ?_⟩
  rw [digitChar, if_pos (by omega), Nat.add_sub_cancel' hbounds.1, Char.ofNat_toNat]

/-- What holds of every decimal digit. -/
theorem of_isDecimal {p : Char → Prop} (hp : ∀ d < 10, p (digitChar d)) {c : Char} (h : isDecimal c = true) : p c := by
  obtain ⟨d, hd, rfl⟩ := eq_digitChar_of_isDecimal h
  exact hp d hd

def numberChars : List Char := ['0', '1', '2', '3', '4', '5', '6', '7', '8', '9', '.', 'e', '+', '-']

theorem mem_numberChars {c : Char} (h : isDecimal c = true) : c ∈ numberChars := of_isDecimal (by decide) h

theorem of_mem_numberChars {p : Char → Bool} (hp : numberChars.all p = true) {c : Char} (hc : c ∈ numberChars) :
    p c = true :=
  List.all_eq_true.1 hp c hc

section
variable {cs : List Char} (h : ∀ c ∈ cs, c ∈ numberChars)
include h

theorem lower_of_number : Text.Case.lower cs = cs := by
  have hfrom (inWord : Bool) : Text.Case.lowerFrom inWord cs = cs := by
    induction cs generalizing inWord with
    | nil => rfl
    | cons c cs ih =>
      obtain ⟨hc, hcs⟩ := List.forall_mem_cons.1 h
      have hlower : Text.Case.lowerChar c = [c] := by
        simpa using of_mem_numberChars (p := fun c => Text.Case.lowerChar c == [c]) (by decide +kernel) hc
      have hsigma : (c == '\u03a3') = false := by
        simpa using of_mem_numberChars (p := fun c => c != '\u03a3') (by decide +kernel) hc
      rw [Text.Case.lowerFrom, hsigma, hlower, ih hcs]
      rfl
  exact hfrom false

theorem trim_of_number : Text.trim cs = cs := by
  have hblank (c : Char) (hc : c ∈ cs) : ¬ Text.isBlank c = true := by
    simpa using of_mem_numberChars (p := fun c => !Text.isBlank c) (by decide +kernel) (h c hc)
  have hfront : cs.dropWhile Text.isBlank = cs :=
    List.dropWhile_eq_self_iff.2 fun hlength => hblank _ (List.getElem_mem hlength)
  have hback : cs.reverse.dropWhile Text.isBlank = cs.reverse :=
    List.dropWhile_eq_self_iff.2 fun hlength => hblank _ (List.mem_reverse.1 (List.getElem_mem hlength))
  rw [Text.trim, hfront, hback, List.reverse_reverse]

theorem plain_of_number : cs.map Text.Digit.plain = cs := by
  have hplain (c : Char) (hc : c ∈ cs) : Text.Digit.plain c = c := by
    simpa using of_mem_numberChars (p := fun c => Text.Digit.plain c == c) (by decide +kernel) (h c hc)
  exact (List.map_congr_left hplain).trans (List.map_id cs)

theorem filter_of_number : cs.filter (· != '_') = cs :=
  List.filter_eq_self.2 fun c hc => of_mem_numberChars (p := (· != '_')) (by decide +kernel) (h c hc)

theorem withoutLastBreak_of_number : Tag.withoutLastBreak cs = cs := by
  refine if_neg fun hlast => ?_
  have := of_mem_numberChars (p := (· != '\n')) (by decide +kernel) (h _ (List.mem_of_getLast? hlast))
  simp at this

end

/-- A text with a character of a kind that no word has is none of the words. -/
theorem isOneOf_eq_false {words : List String} {cs : List Char} {c : Char} (p : Char → Bool) (hc : c ∈ cs)
    (hp : p c = true) (hwords : words.all (fun w => !w.toList.any p) = true) : Tag.isOneOf words cs = false := by
  rw [Tag.isOneOf, List.contains_eq_mem, decide_eq_false_iff_not]
  intro hmem
  have hnone := List.all_eq_true.1 hwords _ hmem
  rw [String.toList_ofList, List.any_eq_true.2 ⟨c, hc, hp⟩] at hnone
  cases hnone

/-! ## Signs -/

/-- A minus sign in front of a text, if there is one. -/
def withMinus (negative : Bool) (cs : List Char) : List Char := if negative then '-' :: cs else cs

section
variable {c : Char} (h : isDecimal c = true) (cs : List Char) (negative : Bool)
include h

theorem takeSign_withMinus : Decimal.takeSign (withMinus negative (c :: cs)) = (negative, c :: cs) := by
  cases negative with
  | true => rfl
  | false => exact Decimal.takeSign_of_isDecimal h cs

theorem isMinus_withMinus : Scalar.isMinus (withMinus negative (c :: cs)) = negative := by
  cases negative with
  | true => rfl
  | false =>
    have hminus : (c == '-') = false := of_isDecimal (p := fun c => (c == '-') = false) (by decide) h
    exact hminus

end

theorem mem_withMinus {negative : Bool} {cs : List Char} {c : Char} (h : c ∈ cs) : c ∈ withMinus negative cs := by
  cases negative with
  | true => exact List.mem_cons_of_mem _ h
  | false => exact h

theorem withMinus_number {negative : Bool} {cs : List Char} (h : ∀ c ∈ cs, c ∈ numberChars) :
    ∀ c ∈ withMinus negative cs, c ∈ numberChars := by
  cases negative with
  | true => exact List.forall_mem_cons.2 ⟨by decide, h⟩
  | false => exact h

/-! ## Integers -/

theorem digits_number (n : ℕ) : ∀ c ∈ digits n, c ∈ numberChars :=
  fun c hc => mem_numberChars (isDecimal_of_mem_digits n c hc)

theorem isGrouped_of_isDecimal {c : Char} (h : isDecimal c = true) : Tag.isGrouped c = true := by
  rw [Tag.isGrouped, h, Bool.true_or]

theorem isInt_digits (negative : Bool) (n : ℕ) : Tag.isInt (withMinus negative (digits n)) = true := by
  rcases Nat.eq_zero_or_pos n with rfl | hn
  · rw [digits_zero]
    cases negative <;> rfl
  · obtain ⟨c, cs, hcs, hc, hzero⟩ := exists_digits_eq_cons hn
    have hgrouped : ∀ x ∈ c :: cs, Tag.isGrouped x = true :=
      fun x hx => isGrouped_of_isDecimal (isDecimal_of_mem_digits n x (hcs ▸ hx))
    rw [hcs, Tag.isInt, takeSign_withMinus hc]
    split
    · simp_all
    · simp_all
    · simp_all
    · simp_all
    · rename_i ds _ _ _ _
      rw [List.takeWhile_eq_self_iff.2 hgrouped, List.dropWhile_eq_nil_iff.2 hgrouped, Tag.isRun,
        List.all_eq_true.2 hgrouped, List.head?_cons, Option.any_some, hc]
      rfl

theorem ofText_digits (negative : Bool) (n : ℕ) : Tag.ofText (withMinus negative (digits n)) = .int := by
  obtain ⟨c, cs, hcs, hc⟩ : ∃ c cs, digits n = c :: cs ∧ isDecimal c = true := by
    obtain ⟨c, cs, hcs⟩ := List.exists_cons_of_ne_nil (digits_ne_nil n)
    exact ⟨c, cs, hcs, isDecimal_of_mem_digits n c (hcs ▸ List.mem_cons_self)⟩
  have hmem : c ∈ withMinus negative (digits n) := mem_withMinus (hcs ▸ List.mem_cons_self)
  unfold Tag.ofText
  rw [withoutLastBreak_of_number (withMinus_number (digits_number n))]
  dsimp only
  rw [isOneOf_eq_false isDecimal hmem hc (by decide +kernel), isOneOf_eq_false isDecimal hmem hc (by decide +kernel),
    isInt_digits]
  simp [List.ne_nil_of_mem hmem]

theorem integer_digits {n : ℕ} (h : (digits n).length ≤ digitLimit) :
    Scalar.integer 10 (digits n) = .ok (n : ℤ) := by
  obtain ⟨c, cs, hcs⟩ := List.exists_cons_of_ne_nil (digits_ne_nil n)
  have hc : isDecimal c = true := isDecimal_of_mem_digits n c (hcs ▸ List.mem_cons_self)
  have hmark : Scalar.withoutMark 10 (digits n) = digits n := by
    unfold Scalar.withoutMark
    split
    · rename_i heq
      rw [heq]
      rfl
    · rfl
  unfold Scalar.integer
  rw [trim_of_number (digits_number n), plain_of_number (digits_number n)]
  have hsign : Decimal.takeSign (digits n) = (false, digits n) := by
    rw [hcs, Decimal.takeSign_of_isDecimal hc]
  rw [hsign]
  dsimp only
  rw [hmark, if_neg, value?_digits]
  · rfl
  · rintro ⟨-, hlong⟩
    exact absurd ((List.takeWhile_sublist _).length_le.trans h) (not_le.2 hlong)

theorem unsignedInt_digits {n : ℕ} (h : (digits n).length ≤ digitLimit) :
    Scalar.unsignedInt (digits n) = .ok (n : ℤ) := by
  rcases Nat.eq_zero_or_pos n with rfl | hn
  · rw [digits_zero]
    rfl
  · have hinteger := integer_digits h
    have hcolon : (digits n).contains ':' = false := by
      rw [List.contains_eq_mem, decide_eq_false_iff_not]
      exact fun hmem => absurd (isDecimal_of_mem_digits n _ hmem) (by decide)
    obtain ⟨c, cs, hcs, -, hzero⟩ := exists_digits_eq_cons hn
    rw [hcs] at hinteger hcolon ⊢
    unfold Scalar.unsignedInt
    split
    · simp_all
    · simp_all
    · simp_all
    · simp_all
    · simp_all
    · rw [hcolon]
      exact hinteger

theorem int_digits (negative : Bool) {n : ℕ} (h : (digits n).length ≤ digitLimit) :
    Scalar.int (withMinus negative (digits n)) = .ok (if negative then -(n : ℤ) else n) := by
  have hunsigned := unsignedInt_digits h
  obtain ⟨c, cs, hcs⟩ := List.exists_cons_of_ne_nil (digits_ne_nil n)
  have hc : isDecimal c = true := isDecimal_of_mem_digits n c (hcs ▸ List.mem_cons_self)
  unfold Scalar.int
  rw [filter_of_number (withMinus_number (digits_number n))]
  rw [hcs] at hunsigned ⊢
  dsimp only
  rw [takeSign_withMinus hc, isMinus_withMinus hc, hunsigned]
  rfl

/-! ## Numbers with a point -/

/-- Digits, a point, digits and perhaps an exponent with a sign. -/
structure Pointed (whole fraction exponent : List Char) : Prop where
  whole_ne_nil : whole ≠ []
  whole_digits : ∀ c ∈ whole, isDecimal c = true
  fraction_digits : ∀ c ∈ fraction, isDecimal c = true
  exponent_form : exponent = [] ∨ ∃ sign ds, exponent = 'e' :: sign :: ds ∧ (sign = '+' ∨ sign = '-') ∧ ds ≠ [] ∧
    ∀ c ∈ ds, isDecimal c = true

namespace Pointed
variable {whole fraction exponent : List Char} (h : Pointed whole fraction exponent)
include h

theorem exists_cons : ∃ c cs, whole = c :: cs ∧ isDecimal c = true := by
  obtain ⟨c, cs, hcs⟩ := List.exists_cons_of_ne_nil h.whole_ne_nil
  exact ⟨c, cs, hcs, h.whole_digits c (hcs ▸ List.mem_cons_self)⟩

theorem exponent_number : ∀ c ∈ exponent, c ∈ numberChars := by
  obtain rfl | ⟨sign, ds, rfl, hsign, -, hds⟩ := h.exponent_form
  · exact fun _ => nofun
  · refine List.forall_mem_cons.2 ⟨by decide, List.forall_mem_cons.2 ⟨?_, fun c hc => mem_numberChars (hds c hc)⟩⟩
    obtain rfl | rfl := hsign <;> decide

theorem number : ∀ c ∈ whole ++ '.' :: (fraction ++ exponent), c ∈ numberChars := by
  refine List.forall_mem_append.2 ⟨fun c hc => mem_numberChars (h.whole_digits c hc), ?_⟩
  refine List.forall_mem_cons.2 ⟨by decide, List.forall_mem_append.2 ⟨?_, h.exponent_number⟩⟩
  exact fun c hc => mem_numberChars (h.fraction_digits c hc)

theorem isExponent : Tag.isExponent exponent = true := by
  obtain rfl | ⟨sign, ds, rfl, hsign, hne, hds⟩ := h.exponent_form
  · rfl
  · obtain rfl | rfl := hsign <;> simpa [Tag.isExponent, hne] using hds

theorem isFraction : Tag.isFraction (fraction ++ exponent) = true := by
  have hgrouped : ∀ c ∈ fraction, Tag.isGrouped c = true :=
    fun c hc => isGrouped_of_isDecimal (h.fraction_digits c hc)
  have hstop : exponent.dropWhile Tag.isGrouped = exponent := by
    obtain rfl | ⟨sign, ds, rfl, -⟩ := h.exponent_form <;> rfl
  rw [Tag.isFraction, List.dropWhile_append_of_pos hgrouped, hstop]
  exact h.isExponent

theorem isFloat (negative : Bool) :
    Tag.isFloat (withMinus negative (whole ++ '.' :: (fraction ++ exponent))) = true := by
  have hgrouped : ∀ c ∈ whole, Tag.isGrouped c = true :=
    fun c hc => isGrouped_of_isDecimal (h.whole_digits c hc)
  have hrun : Tag.isRun whole = true := by
    obtain ⟨c, cs, hcs, hc⟩ := h.exists_cons
    rw [Tag.isRun, List.all_eq_true.2 hgrouped, hcs, List.head?_cons, Option.any_some, hc]
    rfl
  have hsign : (Decimal.takeSign (withMinus negative (whole ++ '.' :: (fraction ++ exponent)))).2 =
      whole ++ '.' :: (fraction ++ exponent) := by
    obtain ⟨c, cs, rfl, hc⟩ := h.exists_cons
    rw [List.cons_append, takeSign_withMinus hc]
  have hpoint : Tag.isGrouped '.' = false := by decide
  unfold Tag.isFloat
  dsimp only
  rw [hsign, List.takeWhile_append_of_pos hgrouped, List.dropWhile_append_of_pos hgrouped]
  simp [hpoint, hrun, h.isFraction]

theorem isInt (negative : Bool) :
    Tag.isInt (withMinus negative (whole ++ '.' :: (fraction ++ exponent))) = false := by
  obtain ⟨c, cs, rfl, hc⟩ := h.exists_cons
  have hgrouped : ∀ x ∈ c :: cs, Tag.isGrouped x = true := fun x hx => isGrouped_of_isDecimal (h.whole_digits x hx)
  have hpoint : Tag.isGrouped '.' = false := by decide
  have hsecond (mark : Char) (hmark : Tag.isGrouped mark = false) (hne : '.' ≠ mark) (ds : List Char) :
      cs ++ '.' :: (fraction ++ exponent) ≠ mark :: ds := by
    cases cs with
    | nil => exact fun heq => hne (List.cons.inj heq).1
    | cons d cs =>
      intro heq
      have hd : Tag.isGrouped d = true := hgrouped d (by simp)
      rw [(List.cons.inj heq).1, hmark] at hd
      cases hd
  rw [Tag.isInt, List.cons_append, takeSign_withMinus hc]
  split
  · rename_i heq
    simp at heq
  · rename_i ds heq
    exact absurd (List.cons.inj heq).2 (hsecond 'b' (by decide) (by decide) ds)
  · rename_i ds heq
    exact absurd (List.cons.inj heq).2 (hsecond 'x' (by decide) (by decide) ds)
  · rename_i ds _ _ _ heq
    have hmem : '.' ∈ ds := (List.cons.inj heq).2 ▸ by simp
    have hoctal : ¬ ((digitIn? 8 '.').isSome || '.' == '_') = true := by decide
    rw [Tag.isRunIn, List.all_eq_false.2 ⟨'.', hmem, hoctal⟩, Bool.and_false]
  · have htail : (c :: (cs ++ '.' :: (fraction ++ exponent))).dropWhile Tag.isGrouped =
        '.' :: (fraction ++ exponent) := by
      rw [← List.cons_append, List.dropWhile_append_of_pos hgrouped, List.dropWhile_cons, hpoint]
      rfl
    rw [htail]
    simp [Tag.isSexagesimal]

theorem ofText (negative : Bool) :
    Tag.ofText (withMinus negative (whole ++ '.' :: (fraction ++ exponent))) = .float := by
  have hmem : '.' ∈ withMinus negative (whole ++ '.' :: (fraction ++ exponent)) := mem_withMinus (by simp)
  unfold Tag.ofText
  rw [withoutLastBreak_of_number (withMinus_number h.number)]
  dsimp only
  rw [isOneOf_eq_false (· == '.') hmem rfl (by decide +kernel),
    isOneOf_eq_false (· == '.') hmem rfl (by decide +kernel), h.isInt, h.isFloat]
  simp [List.ne_nil_of_mem hmem]

theorem number_eq {d : Decimal}
    (hread : Decimal.ofLiteral? (whole ++ '.' :: (fraction ++ exponent)) = some d) :
    Scalar.number (whole ++ '.' :: (fraction ++ exponent)) = .ok (.ofCode false d.code) := by
  have hnumber := h.number
  obtain ⟨c, cs, rfl, hc⟩ := h.exists_cons
  have hword (w : String) (hw : (w.toList.head?.any isDecimal) = false) :
      String.ofList (((c :: cs) ++ '.' :: (fraction ++ exponent)).map Char.toLower) ≠ w := by
    rintro rfl
    have hlower : isDecimal c.toLower = true := of_isDecimal (p := fun c => isDecimal c.toLower = true) (by decide) hc
    simp [hlower] at hw
  unfold Scalar.number
  rw [trim_of_number hnumber, plain_of_number hnumber]
  have hliteral : Double.ofLiteral? ((c :: cs) ++ '.' :: (fraction ++ exponent)) = some (.ofCode false d.code) := by
    unfold Double.ofLiteral?
    rw [List.cons_append, Decimal.takeSign_of_isDecimal hc]
    dsimp only
    rw [← List.cons_append, if_neg (hword "nan" (by decide)), if_neg, hread]
    · rfl
    · exact not_or.2 ⟨hword "inf" (by decide), hword "infinity" (by decide)⟩
  rw [hliteral]

theorem unsignedFloat_eq {d : Decimal}
    (hread : Decimal.ofLiteral? (whole ++ '.' :: (fraction ++ exponent)) = some d) :
    Scalar.unsignedFloat (whole ++ '.' :: (fraction ++ exponent)) = .ok (.ofCode false d.code) := by
  have hcolon : (whole ++ '.' :: (fraction ++ exponent)).contains ':' = false := by
    rw [List.contains_eq_mem, decide_eq_false_iff_not]
    exact fun hmem => absurd (h.number _ hmem) (by decide)
  have hname (name : String) (hname : (name.toList.head?.any isDecimal) = false) :
      whole ++ '.' :: (fraction ++ exponent) ≠ name.toList := by
    obtain ⟨c, cs, rfl, hc⟩ := h.exists_cons
    intro heq
    rw [← heq] at hname
    simp [hc] at hname
  unfold Scalar.unsignedFloat
  rw [if_neg (hname ".inf" (by decide)), if_neg (hname ".nan" (by decide)), hcolon]
  exact h.number_eq hread

theorem float_eq (negative : Bool) {d : Decimal} {code : Fin codeLimit}
    (hread : Decimal.ofLiteral? (whole ++ '.' :: (fraction ++ exponent)) = some d) (hcode : d.code = code) :
    Scalar.float (withMinus negative (whole ++ '.' :: (fraction ++ exponent))) = .ok (.finite negative code) := by
  have hnumber : ∀ c ∈ withMinus negative (whole ++ '.' :: (fraction ++ exponent)), c ∈ numberChars :=
    withMinus_number h.number
  have hvalue : Scalar.unsignedFloat (whole ++ '.' :: (fraction ++ exponent)) = .ok (.finite false code) := by
    rw [h.unsignedFloat_eq hread, hcode, Double.ofCode, dif_pos code.isLt]
  have hne : (withMinus negative (whole ++ '.' :: (fraction ++ exponent))).isEmpty = false := by
    rw [List.isEmpty_eq_false_iff]
    exact List.ne_nil_of_mem (mem_withMinus (List.mem_append_right _ List.mem_cons_self))
  unfold Scalar.float
  rw [filter_of_number hnumber, lower_of_number hnumber]
  dsimp only
  rw [hne]
  obtain ⟨c, cs, rfl, hc⟩ := h.exists_cons
  rw [List.cons_append] at hvalue ⊢
  rw [takeSign_withMinus hc, isMinus_withMinus hc, hvalue]
  cases negative <;> rfl

end Pointed

/-! ## Texts of doubles -/

theorem pointed_positional (n : ℕ) (e : ℤ) :
    ∃ whole fraction, Pointed whole fraction [] ∧ Decimal.positional (digits n) e = whole ++ '.' :: fraction := by
  have hdigits := isDecimal_of_mem_digits n
  unfold Decimal.positional
  split_ifs with h
  · refine ⟨digits n ++ List.replicate e.toNat '0', ['0'], ⟨?_, ?_, ?_, .inl rfl⟩, rfl⟩
    · exact List.append_ne_nil_of_left_ne_nil (digits_ne_nil n) _
    · exact List.forall_mem_append.2 ⟨hdigits, Decimal.isDecimal_zeros _⟩
    · exact Decimal.isDecimal_zeros 1
  · dsimp only
    rw [List.append_assoc, List.singleton_append]
    refine ⟨_, _, ⟨?_, ?_, ?_, .inl rfl⟩, rfl⟩
    · split_ifs with hempty
      · exact List.cons_ne_nil _ _
      · exact fun hnil => hempty (List.isEmpty_iff.2 hnil)
    · split_ifs
      · exact Decimal.isDecimal_zeros 1
      · exact fun c hc => hdigits c (List.mem_of_mem_take hc)
    · exact List.forall_mem_append.2 ⟨Decimal.isDecimal_zeros _, fun c hc => hdigits c (List.mem_of_mem_drop hc)⟩

theorem isDecimal_padded (width n : ℕ) : ∀ c ∈ padded width n, isDecimal c = true :=
  List.forall_mem_append.2 ⟨Decimal.isDecimal_zeros _, isDecimal_of_mem_digits n⟩

theorem pointed_exponent {whole fraction : List Char} (hne : whole ≠ [])
    (hwhole : ∀ c ∈ whole, isDecimal c = true) (hfraction : ∀ c ∈ fraction, isDecimal c = true) (top : ℤ) :
    Pointed whole fraction ('e' :: (if top < 0 then '-' else '+') :: padded 2 top.natAbs) := by
  have hsign : (if top < 0 then '-' else '+') = '+' ∨ (if top < 0 then '-' else '+') = '-' := by
    split_ifs
    · exact .inr rfl
    · exact .inl rfl
  exact ⟨hne, hwhole, hfraction, .inr ⟨_, _, rfl, hsign, List.append_ne_nil_of_right_ne_nil _ (digits_ne_nil _),
    isDecimal_padded _ _⟩⟩

theorem withPoint_of_mem {cs : List Char} (h : '.' ∈ cs) : Config.withPoint cs = cs :=
  if_pos (.inl (List.contains_iff_mem.2 h))

/-- A single digit gets a point and a zero behind it. -/
theorem withPoint_short {c : Char} (hc : isDecimal c = true) {more : List Char} (hmore : '.' ∉ more) :
    Config.withPoint (c :: 'e' :: more) = [c] ++ '.' :: (['0'] ++ 'e' :: more) := by
  have hmark : (c != 'e') = true := of_isDecimal (p := fun c => (c != 'e') = true) (by decide) hc
  have hpoint : c ≠ '.' := of_isDecimal (p := fun c => c ≠ '.') (by decide) hc
  have hnone : ('.' ∈ c :: 'e' :: more) ↔ False := by simp [hmore, hpoint.symm]
  unfold Config.withPoint
  rw [if_neg]
  · simp [hmark]
  · simp only [List.contains_iff_mem, hnone, false_or, not_not]
    simp

theorem toRat_short (n : ℕ) (e : ℤ) : (⟨n * 10 ^ 1, e - 1⟩ : Decimal).toRat = (⟨n, e⟩ : Decimal).toRat := by
  rw [Decimal.toRat_eq, Decimal.toRat_eq, zpow_sub₀ (by norm_num), zpow_one]
  push_cast
  field_simp

/-- A text with a point that is read as the value of a decimal. -/
structure ReadsAs (cs : List Char) (d : Decimal) : Prop where
  pointed : ∃ whole fraction exponent, Pointed whole fraction exponent ∧ cs = whole ++ '.' :: (fraction ++ exponent)
  read : ∃ e, Decimal.ofLiteral? cs = some e ∧ e.toRat = d.toRat

/-- A text that has a point needs no other one. -/
theorem readsAs_of_text {d : Decimal} {whole fraction exponent : List Char} (h : Pointed whole fraction exponent)
    (htext : d.text = whole ++ '.' :: (fraction ++ exponent)) : ReadsAs (Config.withPoint d.text) d := by
  have hpoint : '.' ∈ d.text := htext ▸ List.mem_append_right _ List.mem_cons_self
  rw [withPoint_of_mem hpoint]
  exact ⟨⟨whole, fraction, exponent, h, htext⟩, Decimal.ofLiteral?_text d⟩

theorem readsAs_short {d : Decimal} {c : Char} (hdigits : digits d.digits = [c]) :
    ReadsAs (Config.withPoint (Decimal.scientific [c] d.exponent)) d := by
  have hc : isDecimal c = true := isDecimal_of_mem_digits d.digits c (hdigits ▸ List.mem_cons_self)
  have hwhole : ∀ x ∈ [c], isDecimal x = true := List.forall_mem_singleton.2 hc
  have hpointed := pointed_exponent (List.cons_ne_nil c []) hwhole (Decimal.isDecimal_zeros 1) d.exponent
  have hnone : '.' ∉ (if d.exponent < 0 then '-' else '+') :: padded 2 d.exponent.natAbs := by
    intro hmem
    obtain hsign | hdigit := List.mem_cons.1 hmem
    · split_ifs at hsign <;> exact absurd hsign (by decide)
    · exact absurd (isDecimal_padded _ _ _ hdigit) (by decide)
  have hvalue : value? 10 ([c] ++ List.replicate 1 '0') = some (d.digits * 10 ^ 1) := by
    rw [← hdigits, value?_of_ne_nil (by simp [digits_ne_nil]), valueFrom?_append, valueFrom?_digits,
      Option.bind_some, valueFrom?_zeros, Nat.zero_mul, Nat.zero_add]
  have htext : Config.withPoint (Decimal.scientific [c] d.exponent) =
      [c] ++ '.' :: (['0'] ++ 'e' :: (if d.exponent < 0 then '-' else '+') :: padded 2 d.exponent.natAbs) :=
    withPoint_short hc hnone
  rw [htext]
  refine ⟨⟨_, _, _, hpointed, rfl⟩, ⟨d.digits * 10 ^ 1, d.exponent - 1⟩, ?_, toRat_short _ _⟩
  refine (Decimal.ofLiteral?_mark hwhole (Decimal.isDecimal_zeros 1)).trans ?_
  rw [hvalue, Option.bind_some, Decimal.exponent?_signed]
  rfl

/-- With a point in front of its exponent the text of a decimal is a literal with a point. -/
theorem withPoint_text (d : Decimal) : ReadsAs (Config.withPoint d.text) d := by
  have hdigits := isDecimal_of_mem_digits d.digits
  by_cases hplain : -4 ≤ d.exponent + (digits d.digits).length - 1 ∧ d.exponent + (digits d.digits).length - 1 < 16
  · obtain ⟨whole, fraction, h, htext⟩ := pointed_positional d.digits d.exponent
    refine readsAs_of_text h ?_
    rw [List.append_nil, ← htext, Decimal.text]
    exact if_pos hplain
  · have htext : d.text = Decimal.scientific (digits d.digits) (d.exponent + (digits d.digits).length - 1) := by
      rw [Decimal.text]
      exact if_neg hplain
    obtain ⟨c, cs, hds⟩ := List.exists_cons_of_ne_nil (digits_ne_nil d.digits)
    cases cs with
    | nil =>
      rw [htext, hds, List.length_singleton, Nat.cast_one, add_sub_cancel_right]
      exact readsAs_short hds
    | cons c' cs =>
      rw [hds] at htext hdigits
      have hwhole : ∀ x ∈ [c], isDecimal x = true := List.forall_mem_singleton.2 (hdigits c List.mem_cons_self)
      refine readsAs_of_text (pointed_exponent (List.cons_ne_nil c []) hwhole (List.forall_mem_cons.1 hdigits).2
        (d.exponent + (c :: c' :: cs).length - 1)) ?_
      rw [htext]
      simp [Decimal.scientific]

theorem withPoint_withMinus (negative : Bool) (cs : List Char) :
    Config.withPoint (withMinus negative cs) = withMinus negative (Config.withPoint cs) := by
  cases negative with
  | false => rfl
  | true =>
    have hpoint : ('-' :: cs).contains '.' = cs.contains '.' := rfl
    have hmark : ('-' :: cs).contains 'e' = cs.contains 'e' := rfl
    simp only [withMinus, if_true, Config.withPoint, hpoint, hmark]
    split_ifs <;> rfl

theorem toList_text (negative : Bool) (code : Fin codeLimit) :
    (Double.finite negative code).text.toList = withMinus negative (Decimal.shortest code).text := by
  rw [Double.text, Double.signed, String.toList_ofList]
  rfl

/-- The text of a finite double is a number that reads as this double. -/
theorem withPoint_double (negative : Bool) (code : Fin codeLimit) :
    ∃ whole fraction exponent, Pointed whole fraction exponent ∧
      Config.withPoint (Double.finite negative code).text.toList =
        withMinus negative (whole ++ '.' :: (fraction ++ exponent)) ∧
      Scalar.float (withMinus negative (whole ++ '.' :: (fraction ++ exponent))) = .ok (.finite negative code) := by
  obtain ⟨⟨whole, fraction, exponent, h, htext⟩, d, hread, hvalue⟩ := withPoint_text (Decimal.shortest code)
  rw [htext] at hread
  refine ⟨whole, fraction, exponent, h, ?_, h.float_eq negative hread ?_⟩
  · rw [toList_text, withPoint_withMinus, htext]
  · exact (Decimal.code_congr hvalue).trans (Decimal.code_shortest code.isLt)

end Placement.Yaml
