import Placement.Config.File
import Placement.Proofs.Bytes
import Placement.Proofs.Rounding
import Placement.Proofs.Yaml.Building
import Placement.Proofs.Yaml.Composing
import Placement.Proofs.Yaml.Mapping

/-!
# What a configuration file comes to

A file holds tunables with a slop from zero to one, or is unusable, or its bytes are no text, or it has a fault in one
of its scalars (`Config.isContained_or`).  The last two are not reported as an unusable file: bytes that are no text never
are in a short file, nor is a word without a value in a text of lines (`Config.isContained_iff`).
-/

namespace Placement
set_option autoImplicit false

/-! ## Documents -/

namespace Yaml

/-- Faults of a document with given tokens: a number or an escape in a token, the text of a scalar that has no value
under its tag, and collections too deep in one another or in the place of a date. -/
inductive Stray (ts : List Token) : ScalarFault → Prop
  | token {f : ScalarFault} (hmem : .broken (.scalar f) ∈ ts) (hlexical : Lexical (.scalar f)) : Stray ts f
  | valueless {tag : Tag} {text : List Char} {f : ScalarFault} (htext : Document.IsText ts text)
      (hvalue : Scalar.value tag text = .error (.scalar f)) : Stray ts f
  | tooDeep : Stray ts .tooDeep
  | momentOfCollection : Stray ts .momentOfCollection

/-- Errors of a text: it is malformed, it has a fault, or it breaks off. -/
inductive Failing (s : Stream) : Error → Prop
  | malformed (cause : Malformed) : Failing s (.malformed cause)
  | stray {f : ScalarFault} (h : Stray (Lexer.tokens s) f) : Failing s (.scalar f)
  | broken {e : Error} (h : s.fault = some e) : Failing s e

namespace Document
variable {s : Stream} {e : Error}

theorem failing_of_composing (h : Composing (Lexer.tokens s) e) : Failing s e := by
  cases h with
  | malformed cause => exact .malformed cause
  | tooDeep => exact .stray .tooDeep
  | broken hmem =>
    obtain hlexical | hfault := Lexer.of_broken_mem_tokens hmem
    · cases hlexical with
      | malformed cause => exact .malformed cause
      | tooManyDigits count => exact .stray (.token hmem (.tooManyDigits count))
      | beyondUnicode => exact .stray (.token hmem .beyondUnicode)
      | beyondWord => exact .stray (.token hmem .beyondWord)
    · exact .broken hfault

theorem failing_of_building (h : Building (IsText (Lexer.tokens s)) e) : Failing s e := by
  cases h with
  | malformed cause => exact .malformed cause
  | tooDeep => exact .stray .tooDeep
  | momentOfCollection => exact .stray .momentOfCollection
  | valueless htext hvalue => exact .stray (.valueless htext hvalue)

/-- Only a text that does not break off has a value. -/
theorem read_yields (budget : Nat) (s : Stream) :
    Yields (Failing s) (fun _ => s.fault = none) (read budget s) := by
  -- A document is composed only after the token that tells of the end of the text.
  refine ((ofTokens_composes (budget / 2) (Lexer.tokens s)).mono (fun _ => failing_of_composing) fun _ => id).bind ?_
  rintro document ⟨hend, htexts⟩
  have hfault : s.fault = none := Lexer.fault_of_streamEnd_mem_tokens hend
  cases document with
  | none => exact hfault
  | some x =>
    obtain ⟨root, g⟩ := x
    exact (Graph.build_builds budget root (htexts root g rfl)).mono (fun _ => failing_of_building) fun _ _ => hfault

end Document

/-- A file of lines is passed on as it is. -/
theorem Stream.ofBytes_lines {es : List Line} (hes : ∀ e ∈ es, e.Valid) :
    ofBytes (Text.toBytes (String.ofList (es.flatMap Line.chars))) = ⟨es.flatMap Line.chars, none⟩ := by
  have hplain {c : Char} (h : isPlainChar c = true) : isPrintable c = true ∧ c ≠ '\r' := by
    simp only [isPlainChar, Bool.and_eq_true, bne_iff_ne] at h
    tauto
  rw [ofBytes, Text.ofBytes?_toBytes]
  dsimp only
  rw [String.toList_ofList]
  refine ofChars_of_printable fun c hc => ?_
  obtain ⟨e, he, hc⟩ := List.mem_flatMap.1 hc
  simp only [Line.chars, List.mem_append, List.mem_cons, List.not_mem_nil, or_false] at hc
  obtain hkey | rfl | rfl | hword | rfl := hc
  · exact hplain ((hes e he).key.chars c hkey)
  · decide
  · decide
  · exact hplain ((hes e he).word.chars c hword)
  · decide

end Yaml

/-! ## Files -/

/-- What an error of a document is for the file that holds it. -/
def LoadError.ofDocument : Yaml.Error → LoadError
  | .malformed cause => .unusable (.malformed cause)
  | .scalar fault => .scalar fault
  | .notText => .notText

namespace Config
open Yaml

section
variable {budget : Nat}

theorem load_file (budget : Nat) (content : List UInt8) :
    load budget (.file content) =
      match Document.read budget (.ofBytes content) with
      | .ok v => ofDocument v
      | .error e => .error (.ofDocument e) := by
  delta load ofStream
  dsimp only
  cases Document.read budget (.ofBytes content) with
  | ok v => rfl
  | error e => cases e <;> rfl

theorem ofDocument_cases (v : Value) :
    (∃ c, ofDocument v = .ok c) ∨ ∃ cause, ofDocument v = .error (.unusable cause) := by
  unfold ofDocument
  split
  · split
    · exact .inl ⟨_, rfl⟩
    · exact .inr ⟨_, rfl⟩
  · exact .inr ⟨_, rfl⟩

/-- A file of lines holds the values of its words, if they all have one. -/
theorem load_lines (hbudget : 2 ≤ budget) {e : Line} {es : List Line} (hes : ∀ x ∈ e :: es, x.Valid)
    (hkeys : ∀ x ∈ e :: es, Tag.ofText x.key = .str) :
    load budget (.file (Text.toBytes (String.ofList ((e :: es).flatMap Line.chars)))) =
      match lineValues (e :: es) with
      | .ok entries => ofDocument (.mapping entries)
      | .error e => .error (.ofDocument e) := by
  rw [load_file, Stream.ofBytes_lines hes, Document.read_lines hbudget hes hkeys]
  cases lineValues (e :: es) <;> rfl

/-- A file of lines has the fault of its first word without a value. -/
theorem load_lines_fault_iff (hbudget : 2 ≤ budget) {e : Line} {es : List Line} (hes : ∀ x ∈ e :: es, x.Valid)
    (hkeys : ∀ x ∈ e :: es, Tag.ofText x.key = .str) (f : ScalarFault) :
    load budget (.file (Text.toBytes (String.ofList ((e :: es).flatMap Line.chars)))) = .error (.scalar f) ↔
      lineValues (e :: es) = .error (.scalar f) := by
  rw [load_lines hbudget hes hkeys]
  obtain error | entries := lineValues (e :: es)
  · cases error <;> simp [LoadError.ofDocument]
  · obtain ⟨c, h⟩ | ⟨cause, h⟩ := ofDocument_cases (.mapping entries) <;> simp [h]

theorem load_file_cases (budget : Nat) (content : List UInt8) :
    (∃ c, load budget (.file content) = .ok c ∧ Text.ofBytes? content ≠ none) ∨
      (∃ cause, load budget (.file content) = .error (.unusable cause)) ∨
      (load budget (.file content) = .error .notText ∧ Text.ofBytes? content = none) ∨
      ∃ f, load budget (.file content) = .error (.scalar f) ∧ Stray (Lexer.tokens (.ofBytes content)) f := by
  have hread := Document.read_yields budget (.ofBytes content)
  rw [load_file]
  cases h : Document.read budget (.ofBytes content) with
  | ok v =>
    rw [h] at hread
    have htext : Text.ofBytes? content ≠ none := fun hnone => Stream.fault_ofBytes_ne_none hnone hread
    obtain ⟨c, hc⟩ | hcause := ofDocument_cases v
    · exact .inl ⟨c, hc, htext⟩
    · exact .inr (.inl hcause)
  | error e =>
    rw [h] at hread
    have hfailing : Failing (.ofBytes content) e := hread
    cases hfailing with
    | malformed cause => exact .inr (.inl ⟨_, rfl⟩)
    | stray hstray => exact .inr (.inr (.inr ⟨_, rfl, hstray⟩))
    | broken hfault =>
      obtain rfl | ⟨rfl, hbytes⟩ := Stream.fault_ofBytes hfault
      · exact .inr (.inl ⟨_, rfl⟩)
      · exact .inr (.inr (.inl ⟨rfl, hbytes⟩))

theorem load_short_notText_iff {content : List UInt8} (hlength : content.length < 2 * Stream.blockLength) :
    load budget (.file content) = .error .notText ↔ Text.ofBytes? content = none := by
  constructor
  · intro h
    obtain ⟨c, hc, -⟩ | ⟨cause, hc⟩ | ⟨-, hbytes⟩ | ⟨f, hc, -⟩ := load_file_cases budget content
    · cases hc.symm.trans h
    · cases hc.symm.trans h
    · exact hbytes
    · cases hc.symm.trans h
  · intro h
    rw [load_file, Stream.ofBytes_of_short hlength h]
    rfl

/-- A text that gives tunables with a slop from zero to one, or a file that is reported as unusable. -/
def IsContained (budget : Nat) (content : List UInt8) : Prop :=
  (∃ (c : Config) (q : ℚ), load budget (.file content) = .ok c ∧ Text.ofBytes? content ≠ none ∧
    c.slop.toRat? = some q ∧ 0 ≤ q ∧ q ≤ 1) ∨
  ∃ cause, load budget (.file content) = .error (.unusable cause)

theorem isContained_or (budget : Nat) (content : List UInt8) :
    IsContained budget content ∨ (load budget (.file content) = .error .notText ∧ Text.ofBytes? content = none) ∨
      ∃ f, load budget (.file content) = .error (.scalar f) ∧ Stray (Lexer.tokens (.ofBytes content)) f := by
  obtain ⟨c, hc, htext⟩ | hcause | hescapes := load_file_cases budget content
  · obtain ⟨q, hq, hbounds⟩ := Double.toRat?_of_inUnitInterval c.slop_bounds
    exact .inl (.inl ⟨c, q, hc, htext, hq, hbounds⟩)
  · exact .inl (.inr hcause)
  · exact .inr hescapes

theorem isContained_iff_not_error (budget : Nat) (content : List UInt8) :
    IsContained budget content ↔
      load budget (.file content) ≠ .error .notText ∧ ∀ f, load budget (.file content) ≠ .error (.scalar f) := by
  constructor
  · rintro (⟨c, -, hc, -⟩ | ⟨cause, hc⟩) <;> simp [hc]
  · rintro ⟨hbytes, hscalar⟩
    obtain hcontained | ⟨h, -⟩ | ⟨f, h, -⟩ := isContained_or budget content
    · exact hcontained
    · exact absurd h hbytes
    · exact absurd h (hscalar f)

theorem isContained_iff_malformed (budget : Nat) (content : List UInt8) :
    IsContained budget content ↔ ∀ e, Document.read budget (.ofBytes content) = .error e → ∃ cause, e = .malformed cause := by
  rw [isContained_iff_not_error, load_file]
  cases Document.read budget (.ofBytes content) with
  | ok v => obtain ⟨c, h⟩ | ⟨cause, h⟩ := ofDocument_cases v <;> simp [h]
  | error e => cases e <;> simp [LoadError.ofDocument]

end

/-- A date in the place of a seed, with a month that no year has. -/
def monthless : Line := ⟨"random_seed".toList, "2020-13-45".toList⟩

end Config
end Placement
