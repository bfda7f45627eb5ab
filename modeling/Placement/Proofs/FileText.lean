import Placement.Proofs.Containment
import Placement.Proofs.Fields
import Placement.Proofs.Yaml.Numbers

/-!
# Tunables that are written and read again

The text of a file has one line for each tunable.  Each word of it is a plain scalar that stands for the value of its
field (`Yaml.Stands`), and a configuration is built again from these values, so what is written is read back as it was
(`Config.load_fileText`).
-/

namespace Placement
set_option autoImplicit false

/-! ## Words -/

namespace Yaml
open Numeral

/-- A word that is read as a value. -/
structure Stands (w : List Char) (v : Value) : Prop where
  word : IsWord w
  value : Scalar.value (Tag.ofText w) w = .ok v

theorem isWord_withMinus (negative : Bool) {c : Char} {cs : List Char} (hc : isDecimal c = true)
    (hcs : ∀ x ∈ c :: cs, x ∈ numberChars) : IsWord (withMinus negative (c :: cs)) := by
  have hchars : ∀ x ∈ withMinus negative (c :: cs), isPlainChar x = true :=
    fun x hx => of_mem_numberChars (by decide +kernel) (withMinus_number hcs x hx)
  cases negative with
  | false =>
    have hstarts (next : Option Char) : Lexer.startsPlain false c next = true := by
      refine of_isDecimal (p := fun c => Lexer.startsPlain false c next = true) ?_ hc
      intro d hd
      interval_cases d <;> rfl
    exact ⟨⟨c, cs, rfl, hstarts _⟩, hchars⟩
  | true =>
    have hends : (!endsWord (some c)) = true :=
      of_isDecimal (p := fun c => (!endsWord (some c)) = true) (by decide) hc
    exact ⟨⟨'-', c :: cs, rfl, hends⟩, hchars⟩

theorem stands_double (negative : Bool) (code : Fin codeLimit) :
    Stands (Config.withPoint (Double.finite negative code).text.toList) (.double (.finite negative code)) := by
  obtain ⟨whole, fraction, exponent, h, htext, hfloat⟩ := withPoint_double negative code
  rw [htext]
  constructor
  · have hnumber := h.number
    obtain ⟨c, cs, rfl, hc⟩ := h.exists_cons
    exact isWord_withMinus negative hc hnumber
  · rw [h.ofText negative, Scalar.value, hfloat]
    rfl

theorem toList_ofInt (i : ℤ) : (ofInt i).toList = withMinus (decide (i < 0)) (digits i.natAbs) := by
  cases i with
  | ofNat n => exact toList_ofNat n
  | negSucc n =>
    rw [toList_ofInt_negSucc, decide_eq_true (Int.negSucc_lt_zero n)]
    rfl

theorem stands_int {i : ℤ} (h : Writable i) : Stands (ofInt i).toList (.int i) := by
  rw [toList_ofInt]
  constructor
  · have hnumber := digits_number i.natAbs
    have hdecimal := isDecimal_of_mem_digits i.natAbs
    obtain ⟨c, cs, hcs⟩ := List.exists_cons_of_ne_nil (digits_ne_nil i.natAbs)
    rw [hcs] at hnumber hdecimal ⊢
    exact isWord_withMinus _ (hdecimal c List.mem_cons_self) hnumber
  · have hsigned : (if decide (i < 0) = true then -(i.natAbs : ℤ) else i.natAbs) = i := by
      simp only [decide_eq_true_eq]
      split_ifs <;> omega
    rw [ofText_digits, Scalar.value, int_digits _ h, hsigned]
    rfl

theorem stands_null : Stands "null".toList .null :=
  ⟨isWord_of_all (by decide) (by decide), by rfl⟩

theorem stands_bool (b : Bool) : Stands (if b then "true" else "false").toList (.bool b) := by
  cases b with
  | false => exact ⟨isWord_of_all (by decide) (by decide), by rfl⟩
  | true => exact ⟨isWord_of_all (by decide) (by decide), by rfl⟩

end Yaml

/-! ## Lines -/

namespace Config
open Yaml Numeral
variable (c : Config)

/-- The lines of a file with a given text for the seed. -/
def lines (seed : String) : List Line :=
  [⟨"slop".toList, c.slopText.toList⟩, ⟨"random_seed".toList, seed.toList⟩,
    ⟨"log_plans".toList, c.logPlansText.toList⟩]

theorem fileText_eq_ok_iff (text : String) : c.fileText = .ok text ↔
    ∃ seed, c.seedText = .ok seed ∧ String.ofList ((c.lines seed).flatMap Line.chars) = text := by
  have hlines (seed : String) : "slop: " ++ c.slopText ++ "\nrandom_seed: " ++ seed ++ "\nlog_plans: " ++
      c.logPlansText ++ "\n" = String.ofList ((c.lines seed).flatMap Line.chars) := by
    refine String.toList_injective ?_
    delta lines
    simp [Line.chars, String.toList_append]
  rw [fileText]
  cases c.seedText with
  | error e => simp [Except.map]
  | ok seed => simp [Except.map, hlines]

theorem isKey_of_mem_lines (seed : String) : ∀ e ∈ c.lines seed, IsKey e.key ∧ Tag.ofText e.key = .str := by
  simp only [lines, List.forall_mem_cons]
  refine ⟨⟨?_, by rfl⟩, ⟨?_, by rfl⟩, ⟨?_, by rfl⟩, fun _ => nofun⟩ <;>
    exact isKey_of_all (by decide) (by decide) (by decide) (by decide)

theorem ofDocument_of_ofValue {v : Value} {c : Config} (h : ofValue v = .ok c) : ofDocument v = .ok c := by
  obtain ⟨entries, rfl, -⟩ := ofValue_eq_ok_iff.1 h
  -- Without entries the mapping counts as false, and nothing changes.
  have hdoc : (if (Value.mapping entries).isFalsy then .mapping [] else .mapping entries) = Value.mapping entries := by
    cases entries <;> rfl
  rw [ofDocument, hdoc]
  simp only [h]

/-! ## Files -/

theorem exists_seedText_iff :
    (∃ seed, c.seedText = .ok seed) ↔ ∀ seed, c.randomSeed = some seed → Writable seed := by
  rw [seedText]
  cases c.randomSeed with
  | none => simp
  | some seed =>
    by_cases h : Writable seed
    · simp [written_of_writable h, h]
    · simp [written_of_not_writable h, h]

theorem stands_seed {seed : String} (h : c.seedText = .ok seed) :
    Stands seed.toList (match c.randomSeed with | some seed => .int seed | none => .null) := by
  have hwritable := c.exists_seedText_iff.1 ⟨seed, h⟩
  rw [seedText] at h
  cases hrandom : c.randomSeed with
  | none =>
    rw [hrandom] at h
    cases h
    exact stands_null
  | some number =>
    have hnumber := hwritable number hrandom
    rw [hrandom] at h
    cases (written_of_writable hnumber).symm.trans h
    exact stands_int hnumber

theorem stands_slop : Stands c.slopText.toList (.double c.slop) := by
  rw [slopText, String.toList_ofList]
  cases hslop : c.slop with
  | nan => exact absurd c.slop_bounds (by rw [hslop]; decide)
  | infinite negative => exact absurd c.slop_bounds (by rw [hslop]; cases negative <;> decide)
  | finite negative code => exact stands_double negative code

/-- Tunables are read back from the text of their file.  There is such a text if the seed can be written. -/
theorem load_fileText {budget : Nat} (hbudget : 2 ≤ budget) :
    ((∃ text, c.fileText = .ok text) ↔ ∀ seed, c.randomSeed = some seed → Writable seed) ∧
    ∀ text, c.fileText = .ok text → load budget (.file (Text.toBytes text)) = .ok c := by
  constructor
  · rw [← exists_seedText_iff]
    simp only [fileText_eq_ok_iff]
    exact ⟨fun ⟨_, seed, hseed, _⟩ => ⟨seed, hseed⟩, fun ⟨seed, hseed⟩ => ⟨_, seed, hseed, rfl⟩⟩
  intro text htext
  obtain ⟨seed, hseed, rfl⟩ := (c.fileText_eq_ok_iff text).1 htext
  have hslop := c.stands_slop
  have hrandom := c.stands_seed hseed
  have hlog : Stands c.logPlansText.toList (.bool c.logPlans) := stands_bool c.logPlans
  have hvalid : ∀ e ∈ c.lines seed, e.Valid := by
    intro e he
    refine ⟨(c.isKey_of_mem_lines seed e he).1, ?_⟩
    simp only [lines, List.mem_cons, List.not_mem_nil, or_false] at he
    obtain rfl | rfl | rfl := he <;> dsimp only
    · exact hslop.word
    · exact hrandom.word
    · exact hlog.word
  have hvalues : lineValues (c.lines seed) = .ok [(.text "slop", .double c.slop),
      (.text "random_seed", match c.randomSeed with | some seed => .int seed | none => .null),
      (.text "log_plans", .bool c.logPlans)] := by
    rw [lines, lineValues_cons, hslop.value, lineValues_cons, hrandom.value, lineValues_cons, hlog.value]
    rfl
  have hload := load_lines hbudget hvalid fun e he => (c.isKey_of_mem_lines seed e he).2
  rw [lines, hload, ← lines, hvalues]
  exact ofDocument_of_ofValue c.ofValue_toValue

/-- The least positive slop and the negative zero, with a negative seed and with none. -/
theorem load_fileText_extremes :
    2 ≤ 980 ∧ fileText ⟨.finite false ⟨1, by decide⟩, some (-40), true, by decide⟩ =
        .ok "slop: 5.0e-324\nrandom_seed: -40\nlog_plans: true\n" ∧
      load 980 (.file (Text.toBytes "slop: 5.0e-324\nrandom_seed: -40\nlog_plans: true\n")) =
        .ok ⟨.finite false ⟨1, by decide⟩, some (-40), true, by decide⟩ ∧
      load 980 (.file (Text.toBytes "slop: -0.0\nrandom_seed: null\nlog_plans: false\n")) =
        .ok ⟨.finite true ⟨0, by decide⟩, none, false, by decide⟩ := by
  have hleast : fileText ⟨.finite false ⟨1, by decide⟩, some (-40), true, by decide⟩ =
      .ok "slop: 5.0e-324\nrandom_seed: -40\nlog_plans: true\n" := by decide +kernel
  have hzero : fileText ⟨.finite true ⟨0, by decide⟩, none, false, by decide⟩ =
      .ok "slop: -0.0\nrandom_seed: null\nlog_plans: false\n" := by decide +kernel
  have hbudget : 2 ≤ 980 := by decide
  exact ⟨hbudget, hleast, (load_fileText _ hbudget).2 _ hleast, (load_fileText _ hbudget).2 _ hzero⟩

end Config
end Placement
