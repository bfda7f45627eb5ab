import Placement.Proofs.Numeral
import Placement.Proofs.Rounding
import Placement.Validation

/-!
# Objects and their fields

An object is built from a value exactly if the value is a mapping whose fields pass their checks, and then it consists
of what the checks have made of them; the `Fields` of a kind of object say so with all bounds of the declaration.  An
error names the field that has it (`Checked.Names`), so the only error of a move as a whole is that both its ends are
one node, however they are written.  The own fields of an object give it back (`Validation.ofValue_stable`).
-/

namespace Placement
set_option autoImplicit false

/-! ## Checks of parts -/

namespace Checked
variable {α β γ : Type} {x : Checked α} {y : Checked β}

theorem both_eq_ok_iff {a : α} {b : β} : x.both y = .ok (a, b) ↔ x = .ok a ∧ y = .ok b := by
  cases x <;> cases y <;> simp [both]

theorem map_eq_ok_iff {f : α → γ} {c : γ} : x.map f = .ok c ↔ ∃ a, x = .ok a ∧ f a = c := by
  cases x <;> simp [Except.map]

/-- All errors are in fields of these names. -/
def Names (names : List String) (x : Checked α) : Prop :=
  ∀ errors, x = .error errors → ∀ e ∈ errors, ∃ name ∈ names, ∃ rest, e.path = name :: rest

theorem Names.mono {names others : List String} (hx : x.Names names) (hsub : names ⊆ others) : x.Names others := by
  intro errors h e he
  obtain ⟨name, hname, hrest⟩ := hx errors h e he
  exact ⟨name, hsub hname, hrest⟩

theorem Names.both {names others : List String} (hx : x.Names names) (hy : y.Names others) :
    (x.both y).Names (names ++ others) := by
  replace hx := hx.mono (List.subset_append_left names others)
  replace hy := hy.mono (List.subset_append_right names others)
  intro errors h
  cases x with
  | ok a =>
    cases y with
    | ok b => cases h
    | error es =>
      cases h
      exact hy _ rfl
  | error es =>
    cases y with
    | ok b =>
      cases h
      exact hx _ rfl
    | error fs =>
      cases h
      exact List.forall_mem_append.2 ⟨hx _ rfl, hy _ rfl⟩

end Checked

namespace Validation
variable {α ε : Type} {entries : List (Value × Value)} {name : String} {a : α}

/-- The value of a field passes a check with an outcome. -/
def Has (entries : List (Value × Value)) (name : String) (check : Value → Except ε α) (a : α) : Prop :=
  ∃ raw, Value.lookup? name entries = some raw ∧ check raw = .ok a

/-- The same of a field that may be left out. -/
def HasOr (entries : List (Value × Value)) (name : String) (fallback : α) (check : Value → Except ε α) (a : α) : Prop :=
  (Value.lookup? name entries = none ∧ a = fallback) ∨ Has entries name check a

theorem fields_bind_eq_ok_iff {model : String} {v : Value} {f : List (Value × Value) → Checked α} :
    (fields model v).bind f = .ok a ↔ ∃ entries, v = .mapping entries ∧ f entries = .ok a := by
  cases v <;> simp [fields, Except.bind]

theorem required_eq_ok_iff {check : Value → Except Fault α} :
    required entries name check = .ok a ↔ Has entries name check a := by
  rw [required, Has]
  cases Value.lookup? name entries with
  | none => simp
  | some raw => cases h : check raw <;> simp [Checked.ofFault, h]

theorem optional_eq_ok_iff {fallback : α} {check : Value → Except Fault α} :
    optional entries name fallback check = .ok a ↔ HasOr entries name fallback check a := by
  rw [optional, HasOr, Has]
  cases Value.lookup? name entries with
  | none => simp [eq_comm]
  | some raw => cases h : check raw <;> simp [Checked.ofFault, h]

theorem part_eq_ok_iff {check : Value → Checked α} :
    part entries name check = .ok a ↔ Has entries name check a := by
  rw [part, Has]
  cases Value.lookup? name entries with
  | none => simp
  | some raw => cases h : check raw <;> simp [Checked.within, h]

theorem names_part (entries : List (Value × Value)) (name : String) (check : Value → Checked α) :
    (part entries name check).Names [name] := by
  intro errors h e he
  rw [part] at h
  cases hraw : Value.lookup? name entries with
  | none =>
    rw [hraw] at h
    cases h
    cases List.mem_singleton.1 he
    exact ⟨name, List.mem_singleton_self _, [], rfl⟩
  | some raw =>
    rw [hraw] at h
    cases hcheck : check raw with
    | ok a =>
      simp only [hcheck, Checked.within] at h
      cases h
    | error es =>
      simp only [hcheck, Checked.within] at h
      cases h
      obtain ⟨inner, -, rfl⟩ := List.mem_map.1 he
      exact ⟨name, List.mem_singleton_self _, inner.path, rfl⟩

theorem report_eq_ok_iff {model : String} {x : Checked α} : report model x = .ok a ↔ x = .ok a := by
  cases x <;> simp [report]

end Validation

/-! ## Integers and their texts -/

namespace NumberText
open Numeral

theorem leadingDigits_digits (n : ℕ) : leadingDigits (digits n) = (digits n, []) := by
  rcases Nat.eq_zero_or_pos n with rfl | hn
  · rw [digits_zero]
    rfl
  · obtain ⟨c, cs, hcs, -, hzero⟩ := exists_digits_eq_cons hn
    have hdecimal := isDecimal_of_mem_digits n
    rw [hcs] at hdecimal ⊢
    unfold leadingDigits
    split
    · rename_i heq
      cases heq
      exact absurd rfl hzero
    · rw [List.takeWhile_eq_self_iff.2 hdecimal, List.dropWhile_eq_nil_iff.2 hdecimal]

theorem bare_digits {n : ℕ} (h : (digits n).length ≤ digitLimit) : bare (digits n) = .ok (n : ℤ) := by
  have hsign : ((digits n).head? == some '-') = false := by
    rw [beq_eq_false_iff_ne]
    intro hminus
    exact absurd (isDecimal_of_mem_digits n '-' (List.mem_of_mem_head? hminus)) (by decide)
  rw [bare, hsign]
  simp only [Bool.false_eq_true, if_false, leadingDigits_digits, value?_digits, Nat.add_zero, if_neg (not_lt.2 h)]

theorem bare_minus_digits {n : ℕ} (h : (digits n).length + 1 ≤ digitLimit) :
    bare ('-' :: digits n) = .ok (-(n : ℤ)) := by
  have hsign : (('-' :: digits n).head? == some '-') = true := rfl
  rw [bare, hsign]
  simp only [if_true, List.drop_succ_cons, List.drop_zero, leadingDigits_digits, value?_digits, if_neg (not_lt.2 h)]

/-- An integer is read back from its text. -/
theorem integer_ofInt {i : ℤ} (h : (ofInt i).toList.length ≤ digitLimit) : integer (ofInt i).toList = .ok i := by
  have hbare : bare (ofInt i).toList = .ok i := by
    cases i with
    | ofNat n =>
      rw [ofInt, toList_ofNat] at h ⊢
      exact bare_digits h
    | negSucc n =>
      rw [toList_ofInt_negSucc] at h ⊢
      exact bare_minus_digits h
  rw [integer, hbare]

end NumberText

namespace Check

theorem natUpTo_eq_ok_iff {bound : ℕ} {v : Value} {n : Fin (bound + 1)} :
    natUpTo bound v = .ok n ↔ integer v = .ok (n.val : ℤ) := by
  rw [natUpTo]
  cases integer v with
  | error fault => simp
  | ok i =>
    dsimp only
    have hn := n.isLt
    split_ifs with hneg hbound
    · simp only [Except.ok.injEq, false_iff]
      omega
    · rw [Except.ok.injEq, Except.ok.injEq, Fin.ext_iff]
      dsimp only
      omega
    · simp only [Except.ok.injEq, false_iff]
      omega

end Check

open Validation

/-! ## Nodes and shards -/

namespace Node

structure Fields (entries : List (Value × Value)) (host : String) (port startCode : ℤ) : Prop where
  port_bounds : 0 ≤ port ∧ port ≤ 65535
  host : Has entries "host" Check.text host
  port : Has entries "port" Check.integer port
  startCode : HasOr entries "start_code" 0 Check.integer startCode

theorem ofValue_eq_ok_iff {v : Value} {n : Node} :
    ofValue v = .ok n ↔ ∃ entries, v = .mapping entries ∧ Fields entries n.host n.port.val n.startCode := by
  rw [ofValue, report_eq_ok_iff, check, fields_bind_eq_ok_iff]
  refine exists_congr fun entries => and_congr_right fun _ => ?_
  simp only [Checked.map_eq_ok_iff, Prod.exists, Checked.both_eq_ok_iff, required_eq_ok_iff, optional_eq_ok_iff]
  constructor
  · rintro ⟨host, port, startCode, ⟨hhost, ⟨raw, hraw, hport⟩, hcode⟩, rfl⟩
    have hbound := port.isLt
    exact ⟨by dsimp only; omega, hhost, ⟨raw, hraw, Check.natUpTo_eq_ok_iff.1 hport⟩, hcode⟩
  · rintro ⟨-, hhost, ⟨raw, hraw, hport⟩, hcode⟩
    exact ⟨n.host, n.port, n.startCode, ⟨hhost, ⟨raw, hraw, Check.natUpTo_eq_ok_iff.2 hport⟩, hcode⟩, rfl⟩

theorem exists_ofValue_iff (v : Value) (host : String) (port startCode : ℤ) :
    (∃ n, ofValue v = .ok n ∧ n.host = host ∧ (n.port.val : ℤ) = port ∧ n.startCode = startCode) ↔
      ∃ entries, v = .mapping entries ∧ Fields entries host port startCode := by
  constructor
  · rintro ⟨n, h, rfl, rfl, rfl⟩
    exact ofValue_eq_ok_iff.1 h
  · rintro ⟨entries, hv, h⟩
    obtain ⟨hnonneg, hle⟩ := h.port_bounds
    lift port to ℕ using hnonneg
    exact ⟨⟨host, ⟨port, by omega⟩, startCode⟩, ofValue_eq_ok_iff.2 ⟨entries, hv, h⟩, rfl, rfl, rfl⟩

theorem ofValue_toValue (n : Node) : ofValue n.toValue = .ok n := by
  have hbound := n.port.isLt
  exact ofValue_eq_ok_iff.2
    ⟨_, rfl, by omega, ⟨_, rfl, rfl⟩, ⟨_, rfl, rfl⟩, .inr ⟨_, rfl, rfl⟩⟩

end Node

namespace Shard

structure Fields (entries : List (Value × Value)) (s : Shard) : Prop where
  table : Has entries "table" Check.text s.table
  startKey : HasOr entries "start_key" [] Check.bytes s.startKey
  endKey : HasOr entries "end_key" [] Check.bytes s.endKey
  shardId : HasOr entries "shard_id" 0 Check.integer s.shardId

theorem ofValue_eq_ok_iff (v : Value) (s : Shard) :
    ofValue v = .ok s ↔ ∃ entries, v = .mapping entries ∧ Fields entries s := by
  rw [ofValue, report_eq_ok_iff, check, fields_bind_eq_ok_iff]
  refine exists_congr fun entries => and_congr_right fun _ => ?_
  simp only [Checked.map_eq_ok_iff, Prod.exists, Checked.both_eq_ok_iff, required_eq_ok_iff, optional_eq_ok_iff]
  constructor
  · rintro ⟨table, startKey, endKey, shardId, ⟨htable, hstart, hend, hid⟩, rfl⟩
    exact ⟨htable, hstart, hend, hid⟩
  · rintro ⟨htable, hstart, hend, hid⟩
    exact ⟨s.table, s.startKey, s.endKey, s.shardId, ⟨htable, hstart, hend, hid⟩, rfl⟩

theorem ofValue_toValue (s : Shard) : ofValue s.toValue = .ok s :=
  (ofValue_eq_ok_iff _ s).2
    ⟨_, rfl, ⟨_, rfl, rfl⟩, .inr ⟨_, rfl, rfl⟩, .inr ⟨_, rfl, rfl⟩, .inr ⟨_, rfl, rfl⟩⟩

end Shard

/-! ## Moves -/

namespace MovePlan

structure Fields (entries : List (Value × Value)) (shard : Shard) (source destination : Node) : Prop where
  shard : Has entries "shard" Shard.ofValue shard
  source : Has entries "source" Node.ofValue source
  destination : Has entries "destination" Node.ofValue destination

theorem make_of_ne {shard : Shard} {source destination : Node} (h : source ≠ destination) :
    make shard source destination = .ok ⟨shard, source, destination, h⟩ := by
  rw [make, ofParts, dif_neg h, report]

theorem make_of_eq (shard : Shard) (node : Node) :
    make shard node node = .error ⟨"MovePlan", [⟨[], .sameNode node⟩]⟩ := by
  rw [make, ofParts, dif_pos rfl, report]

variable {entries : List (Value × Value)} {shard : Shard} {source destination : Node}

theorem parts_eq_ok_iff :
    (part entries "shard" Shard.check).both
        ((part entries "source" Node.check).both (part entries "destination" Node.check)) =
      .ok (shard, source, destination) ↔ Fields entries shard source destination := by
  simp only [Checked.both_eq_ok_iff, part_eq_ok_iff]
  -- A part is good as an object of its own exactly if its check is.
  have hshard : Has entries "shard" Shard.ofValue shard ↔ Has entries "shard" Shard.check shard :=
    exists_congr fun raw => and_congr_right' report_eq_ok_iff
  have hnode (name : String) (node : Node) : Has entries name Node.ofValue node ↔ Has entries name Node.check node :=
    exists_congr fun raw => and_congr_right' report_eq_ok_iff
  constructor
  · rintro ⟨h, hsource, hdest⟩
    exact ⟨hshard.2 h, (hnode _ _).2 hsource, (hnode _ _).2 hdest⟩
  · rintro ⟨h, hsource, hdest⟩
    exact ⟨hshard.1 h, (hnode _ _).1 hsource, (hnode _ _).1 hdest⟩

/-- Source and destination are compared when all three parts have been built. -/
theorem ofValue_of_fields (h : Fields entries shard source destination) :
    ofValue (.mapping entries) = make shard source destination := by
  have hcheck : check (.mapping entries) = ofParts shard source destination := by
    rw [check, fields, Except.bind, parts_eq_ok_iff.2 h, Except.bind]
  rw [ofValue, hcheck, make]

/-- A value that is no mapping, a field that has an error, or three parts. -/
theorem ofValue_cases (v : Value) :
    ((∀ entries, v ≠ .mapping entries) ∧ ofValue v = .error ⟨"MovePlan", [⟨[], .notObject "MovePlan"⟩]⟩) ∨
      (∃ errors, ofValue v = .error ⟨"MovePlan", errors⟩ ∧
        ∀ e ∈ errors, ∃ name ∈ ["shard", "source", "destination"], ∃ rest, e.path = name :: rest) ∨
      ∃ entries shard source destination, v = .mapping entries ∧ Fields entries shard source destination := by
  cases v with
  | mapping entries =>
    have hnames := (names_part entries "shard" Shard.check).both
      ((names_part entries "source" Node.check).both (names_part entries "destination" Node.check))
    cases hparts : (part entries "shard" Shard.check).both
        ((part entries "source" Node.check).both (part entries "destination" Node.check)) with
    | error errors =>
      refine .inr (.inl ⟨errors, ?_, hnames errors hparts⟩)
      rw [ofValue, check, fields, Except.bind, hparts, Except.bind, report]
    | ok parts =>
      obtain ⟨shard, source, destination⟩ := parts
      exact .inr (.inr ⟨entries, shard, source, destination, rfl, parts_eq_ok_iff.1 hparts⟩)
  | _ => exact .inl ⟨fun _ => nofun, rfl⟩

theorem exists_ofValue_iff (v : Value) (shard : Shard) (source destination : Node) :
    (∃ p, ofValue v = .ok p ∧ p.shard = shard ∧ p.source = source ∧ p.destination = destination) ↔
      source ≠ destination ∧ ∃ entries, v = .mapping entries ∧ Fields entries shard source destination := by
  constructor
  · rintro ⟨p, h, rfl, rfl, rfl⟩
    refine ⟨p.distinct, ?_⟩
    obtain ⟨-, hother⟩ | ⟨errors, hother, -⟩ | ⟨entries, shard, source, destination, rfl, hfields⟩ := ofValue_cases v
    · cases h.symm.trans hother
    · cases h.symm.trans hother
    · rw [ofValue_of_fields hfields] at h
      by_cases hsame : source = destination
      · subst hsame
        cases h.symm.trans (make_of_eq shard source)
      · cases h.symm.trans (make_of_ne hsame)
        exact ⟨entries, rfl, hfields⟩
  · rintro ⟨hne, entries, rfl, hfields⟩
    exact ⟨_, (ofValue_of_fields hfields).trans (make_of_ne hne), rfl, rfl, rfl⟩

theorem ofValue_toValue (p : MovePlan) : ofValue p.toValue = .ok p :=
  (ofValue_of_fields ⟨⟨_, rfl, p.shard.ofValue_toValue⟩, ⟨_, rfl, p.source.ofValue_toValue⟩,
    ⟨_, rfl, p.destination.ofValue_toValue⟩⟩).trans (make_of_ne p.distinct)

/-- A value is no move, for a reason that no single field has. -/
def FailsAsWhole (v : Value) : Prop :=
  ∃ r e, ofValue v = .error r ∧ e ∈ r.errors ∧ e.path = [] ∧ e.fault.code = "value_error"

theorem failsAsWhole_iff (v : Value) :
    FailsAsWhole v ↔ ∃ entries shard source destination, v = .mapping entries ∧
      Fields entries shard source destination ∧
      source.host = destination.host ∧ source.port = destination.port ∧ source.startCode = destination.startCode := by
  constructor
  · rintro ⟨r, e, h, he, hpath, hcode⟩
    obtain ⟨-, hother⟩ | ⟨errors, hother, hnames⟩ | ⟨entries, shard, source, destination, rfl, hfields⟩ :=
      ofValue_cases v
    · cases h.symm.trans hother
      cases List.mem_singleton.1 he
      exact absurd hcode (by decide)
    · cases h.symm.trans hother
      obtain ⟨name, -, rest, hrest⟩ := hnames e he
      cases hpath.symm.trans hrest
    · rw [ofValue_of_fields hfields] at h
      by_cases hsame : source = destination
      · exact ⟨entries, shard, source, destination, rfl, hfields, by simp [hsame]⟩
      · cases h.symm.trans (make_of_ne hsame)
  · rintro ⟨entries, shard, source, destination, rfl, hfields, hhost, hport, hcode⟩
    have hsame : source = destination := by
      cases source
      cases destination
      exact (Node.mk.injEq ..).mpr ⟨hhost, hport, hcode⟩
    subst hsame
    exact ⟨_, _, (ofValue_of_fields hfields).trans (make_of_eq shard source), List.mem_singleton_self _, rfl, rfl⟩

end MovePlan

/-! ## Load figures and tunables -/

namespace LoadSummary

structure Fields (entries : List (Value × Value)) (s : LoadSummary) : Prop where
  nodeCount : HasOr entries "node_count" 0 Check.integer s.nodeCount
  shardCount : HasOr entries "shard_count" 0 Check.integer s.shardCount
  maxLoad : HasOr entries "max_load" 0 Check.integer s.maxLoad
  minLoad : HasOr entries "min_load" 0 Check.integer s.minLoad

theorem ofValue_eq_ok_iff (v : Value) (s : LoadSummary) :
    ofValue v = .ok s ↔ ∃ entries, v = .mapping entries ∧ Fields entries s := by
  rw [ofValue, report_eq_ok_iff, check, fields_bind_eq_ok_iff]
  refine exists_congr fun entries => and_congr_right fun _ => ?_
  simp only [Checked.map_eq_ok_iff, Prod.exists, Checked.both_eq_ok_iff, optional_eq_ok_iff]
  constructor
  · rintro ⟨nodeCount, shardCount, maxLoad, minLoad, ⟨hnodes, hshards, hmax, hmin⟩, rfl⟩
    exact ⟨hnodes, hshards, hmax, hmin⟩
  · rintro ⟨hnodes, hshards, hmax, hmin⟩
    exact ⟨s.nodeCount, s.shardCount, s.maxLoad, s.minLoad, ⟨hnodes, hshards, hmax, hmin⟩, rfl⟩

theorem ofValue_toValue (s : LoadSummary) : ofValue s.toValue = .ok s :=
  (ofValue_eq_ok_iff _ s).2
    ⟨_, rfl, .inr ⟨_, rfl, rfl⟩, .inr ⟨_, rfl, rfl⟩, .inr ⟨_, rfl, rfl⟩, .inr ⟨_, rfl, rfl⟩⟩

end LoadSummary

namespace Config

structure Fields (entries : List (Value × Value)) (slop : Double) (randomSeed : Option ℤ) (logPlans : Bool) : Prop where
  slop_bounds : ∃ q : ℚ, slop.toRat? = some q ∧ 0 ≤ q ∧ q ≤ 1
  slop : HasOr entries "slop" .zero Check.number slop
  randomSeed : HasOr entries "random_seed" none Check.integerOrNull randomSeed
  logPlans : HasOr entries "log_plans" false Check.bool logPlans

theorem checkSlop_eq_ok_iff {v : Value} {d : UnitDouble} : checkSlop v = .ok d ↔ Check.number v = .ok d.val := by
  obtain ⟨d, hd⟩ := d
  have hnegative : d.isNegative = false := by
    rw [Double.inUnitInterval, Bool.and_eq_true, Bool.not_eq_true'] at hd
    exact hd.1
  rw [checkSlop]
  cases Check.number v with
  | error fault => simp
  | ok x =>
    dsimp only
    rw [Except.ok.injEq]
    constructor
    · intro h
      split_ifs at h
      cases h
      rfl
    · rintro rfl
      simp [hnegative, hd]

theorem ofValue_eq_ok_iff {v : Value} {c : Config} :
    ofValue v = .ok c ↔ ∃ entries, v = .mapping entries ∧ Fields entries c.slop c.randomSeed c.logPlans := by
  rw [ofValue, report_eq_ok_iff, check, fields_bind_eq_ok_iff]
  refine exists_congr fun entries => and_congr_right fun _ => ?_
  simp only [Checked.map_eq_ok_iff, Prod.exists, Checked.both_eq_ok_iff, optional_eq_ok_iff]
  have hslop (d : UnitDouble) :
      HasOr entries "slop" ⟨.zero, rfl⟩ checkSlop d ↔ HasOr entries "slop" .zero Check.number d.val :=
    or_congr (and_congr_right' Subtype.ext_iff) (exists_congr fun raw => and_congr_right' checkSlop_eq_ok_iff)
  constructor
  · rintro ⟨slop, seed, loud, ⟨hchecked, hseed, hloud⟩, rfl⟩
    exact ⟨(Double.inUnitInterval_iff slop).1 slop.property, (hslop slop).1 hchecked, hseed, hloud⟩
  · rintro ⟨-, hnumber, hseed, hloud⟩
    exact ⟨⟨c.slop, c.slop_bounds⟩, c.randomSeed, c.logPlans, ⟨(hslop _).2 hnumber, hseed, hloud⟩, rfl⟩

theorem exists_ofValue_iff (v : Value) (slop : Double) (randomSeed : Option ℤ) (logPlans : Bool) :
    (∃ c, ofValue v = .ok c ∧ c.slop = slop ∧ c.randomSeed = randomSeed ∧ c.logPlans = logPlans) ↔
      ∃ entries, v = .mapping entries ∧ Fields entries slop randomSeed logPlans := by
  constructor
  · rintro ⟨c, h, rfl, rfl, rfl⟩
    exact ofValue_eq_ok_iff.1 h
  · rintro ⟨entries, hv, h⟩
    exact ⟨⟨slop, randomSeed, logPlans, (Double.inUnitInterval_iff slop).2 h.slop_bounds⟩,
      ofValue_eq_ok_iff.2 ⟨entries, hv, h⟩, rfl, rfl, rfl⟩

theorem ofValue_toValue (c : Config) : ofValue c.toValue = .ok c := by
  have hbounds := (Double.inUnitInterval_iff c.slop).1 c.slop_bounds
  refine ofValue_eq_ok_iff.2 ⟨_, rfl, hbounds, .inr ⟨_, rfl, rfl⟩, .inr ⟨_, rfl, ?_⟩, .inr ⟨_, rfl, rfl⟩⟩
  cases c.randomSeed <;> rfl

end Config

/-! ## Spellings -/

/-- An integer as it is or as a text. -/
inductive Value.SpellsInt (i : ℤ) : Value → Prop
  | int : SpellsInt i (.int i)
  | text (h : (Numeral.ofInt i).toList.length ≤ Numeral.digitLimit) : SpellsInt i (.text (Numeral.ofInt i))

theorem Value.SpellsInt.integer_eq {i : ℤ} {v : Value} (h : SpellsInt i v) : Check.integer v = .ok i := by
  cases h with
  | int => rfl
  | text h => exact NumberText.integer_ofInt h

/-- A node with its integers in either spelling; a start code of zero may be left out. -/
inductive Node.Spells (n : Node) : Value → Prop
  | full {port startCode : Value} (hport : Value.SpellsInt n.port.val port)
      (hcode : Value.SpellsInt n.startCode startCode) :
      Spells n (.ofFields [("host", .text n.host), ("port", port), ("start_code", startCode)])
  | short {port : Value} (hport : Value.SpellsInt n.port.val port) (hzero : n.startCode = 0) :
      Spells n (.ofFields [("host", .text n.host), ("port", port)])

theorem Node.Spells.ofValue_eq {n : Node} {v : Value} (h : n.Spells v) : Node.ofValue v = .ok n := by
  have hbound := n.port.isLt
  refine Node.ofValue_eq_ok_iff.2 ?_
  cases h with
  | full hport hcode =>
    exact ⟨_, rfl, by omega, ⟨_, rfl, rfl⟩, ⟨_, rfl, hport.integer_eq⟩, .inr ⟨_, rfl, hcode.integer_eq⟩⟩
  | short hport hzero =>
    exact ⟨_, rfl, by omega, ⟨_, rfl, rfl⟩, ⟨_, rfl, hport.integer_eq⟩, .inl ⟨rfl, hzero⟩⟩

theorem MovePlan.ofValue_of_spells (s : Shard) {n : Node} {source destination : Value} (hsource : n.Spells source)
    (hdest : n.Spells destination) :
    MovePlan.ofValue (.ofFields [("shard", s.toValue), ("source", source), ("destination", destination)]) =
      .error ⟨"MovePlan", [⟨[], .sameNode n⟩]⟩ :=
  (ofValue_of_fields ⟨⟨_, rfl, s.ofValue_toValue⟩, ⟨_, rfl, hsource.ofValue_eq⟩, ⟨_, rfl, hdest.ofValue_eq⟩⟩).trans
    (make_of_eq s n)

/-! ## All kinds of objects -/

end Placement
