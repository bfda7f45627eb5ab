import Placement.Balancer
import Placement.Proofs.Balancing
import Placement.Proofs.PairingLoop

/-!
# When planning fails

A planner cannot be made with a slop below zero, in the order of the numbers and the two infinities
(`Slop.value?`).  With any other slop it answers for every snapshot, unless it has to compare an unbalanced
cluster with a slop that has no exact value (`Planner.balance_eq_error_iff`): one that is no number, or a whole
number that is too long to be written.  A configuration leaves no room for that.  The pairing itself never fails.
-/

namespace Placement
set_option autoImplicit false

/-! ## Numbers and infinities -/

namespace Double

/-- The place of a double among the rational numbers and the two infinities; NaN has none. -/
def value? (d : Double) : Option (WithBot (WithTop ℚ)) :=
  match d with
  | .nan => none
  | .infinite negative => some (if negative then ⊥ else ((⊤ : WithTop ℚ) : WithBot (WithTop ℚ)))
  | d => d.toRat?.map fun q => ((q : WithTop ℚ) : WithBot (WithTop ℚ))

theorem quotient_den_pos (code : ℕ) : 0 < (quotient code).2 := by
  unfold quotient
  simp only
  split_ifs
  · exact Nat.pow_pos (by decide)
  · exact Nat.one_pos

theorem ite_mod_eq_zero_iff {unit : ℕ} (h : 0 < unit) (code : ℕ) :
    (if code < unit then code else code % unit + unit) = 0 ↔ code = 0 := by
  split_ifs <;> omega

theorem parts_num_eq_zero_iff (code : ℕ) : (parts code).1 = 0 ↔ code = 0 := by
  -- The lemma for any unit keeps the case split from evaluating the power of two.
  have hpow : 0 < Nat.pow 2 52 := Nat.pow_pos (by decide)
  rw [parts, apply_ite Prod.fst]
  exact ite_mod_eq_zero_iff hpow code

theorem quotient_num_eq_zero_iff (code : ℕ) : (quotient code).1 = 0 ↔ code = 0 := by
  refine Iff.trans ?_ (parts_num_eq_zero_iff code)
  unfold quotient
  simp only
  split_ifs
  · exact Iff.rfl
  · have hpow : 0 < Nat.pow 2 (parts code).2.toNat := Nat.pow_pos (by decide)
    rw [Nat.mul_eq_zero, or_iff_left hpow.ne']

theorem signed_mkRat_neg_iff (negative : Bool) (n : ℕ) {d : ℕ} (hd : 0 < d) :
    (if negative then -mkRat n d else mkRat n d) < 0 ↔ negative = true ∧ n ≠ 0 := by
  have hnonneg : 0 ≤ mkRat n d := Rat.mkRat_nonneg (Int.natCast_nonneg _) _
  have hzero : mkRat n d = 0 ↔ n = 0 := by rw [Rat.mkRat_eq_zero hd.ne', Int.natCast_eq_zero]
  cases negative with
  | false => simp
  | true =>
    rw [if_pos rfl, neg_lt_zero, lt_iff_le_and_ne, ne_comm, Ne, hzero, and_iff_right hnonneg]
    exact (and_iff_right rfl).symm

theorem isNegative_iff (d : Double) : d.isNegative = true ↔ ∃ x, d.value? = some x ∧ x < 0 := by
  cases d with
  | nan => simp [isNegative, value?]
  | infinite negative => cases negative <;> simp [isNegative, value?]
  | finite negative code =>
    have hsign := signed_mkRat_neg_iff negative (quotient code.val).1 (quotient_den_pos code.val)
    rw [ne_eq, quotient_num_eq_zero_iff] at hsign
    have hvalue : (Double.finite negative code).value? =
        some (((if negative then -mkRat (quotient code.val).1 (quotient code.val).2
          else mkRat (quotient code.val).1 (quotient code.val).2 : ℚ) : WithTop ℚ) : WithBot (WithTop ℚ)) := rfl
    rw [hvalue]
    simp only [Option.some.injEq, exists_eq_left', WithBot.coe_lt_zero, WithTop.coe_lt_zero, hsign, isNegative,
      Bool.and_eq_true, bne_iff_ne, ne_eq]

theorem isFinite_of_inUnitInterval {d : Double} (h : d.inUnitInterval = true) : d.isFinite = true := by
  cases d with
  | nan => cases h
  | infinite negative => cases negative <;> cases h
  | finite negative code => rfl

end Double

namespace Slop

def value? : Slop → Option (WithBot (WithTop ℚ))
  | .whole n => some (((n : ℚ) : WithTop ℚ) : WithBot (WithTop ℚ))
  | .double d => d.value?

theorem isNegative_iff (slop : Slop) : slop.isNegative = true ↔ ∃ x, slop.value? = some x ∧ x < 0 := by
  cases slop with
  | whole n => simp [isNegative, value?]
  | double d => exact d.isNegative_iff

/-- The slops that may not be asked about an unbalanced cluster. -/
theorem exact_eq_error_iff {slop : Slop} (hslop : slop.isNegative = false) (e : InexactSlop) :
    slop.exact = .error e ↔
      (∃ d, (d = .nan ∨ d = .infinite false) ∧ slop = .double d ∧ e = .literal d.text) ∨
      ∃ n, ¬ Numeral.Writable n ∧ slop = .whole n ∧ e = .unwritable .digits := by
  cases slop with
  | whole n =>
    by_cases h : Numeral.Writable n
    · simp [exact_whole_of_writable h, h]
    · simp [exact_whole_of_not_writable h, h, eq_comm]
  | double d =>
    cases d with
    | nan => simp [exact, Double.decimalValue?, eq_comm]
    | infinite negative =>
      have hnegative : negative = false := hslop
      subst hnegative
      simp [exact, Double.decimalValue?, eq_comm]
    | finite negative code => simp [exact, Double.decimalValue?]

theorem tolerates_eq_error_iff {slop : Slop} (hslop : slop.isNegative = false) (s : LoadSummary)
    (e : InexactSlop) :
    slop.tolerates s = .error e ↔ ¬ s.isBalanced = true ∧ slop.exact = .error e := by
  have hzero (h : slop.isZero = true) : slop.exact ≠ .error e := by
    obtain ⟨q, hq⟩ := isExact_iff.1 (isExact_of_isZero h)
    simp [hq]
  rw [tolerates, hslop, Bool.false_or]
  split_ifs with hbalanced hslop0
  · simp [hbalanced]
  · simp [hzero hslop0]
  · cases hexact : slop.exact <;> simp [hbalanced, Except.map]

end Slop

namespace Planner
variable {p : Planner} {s : Snapshot}

/-! ## Failing -/

theorem make_eq_error_iff (slop : Slop) (logPlans : Bool) (e : PlanError) :
    make slop logPlans = .error e ↔ e = .negativeSlop ∧ ∃ x, slop.value? = some x ∧ x < 0 := by
  rw [← Slop.isNegative_iff, make]
  split_ifs with hslop
  · simp [hslop]
  · simp [hslop, eq_comm]

example : ∀ d ∈ [.nan, .infinite false, .finite true 0], (make (.double d) false).toBool = true := by decide

theorem make_eq_ok_iff (slop : Slop) (logPlans : Bool) (p : Planner) :
    make slop logPlans = .ok p ↔ p.slop = slop ∧ p.logPlans = logPlans := by
  obtain ⟨own, loud, hown⟩ := p
  rw [make]
  split_ifs with hslop
  · simp [eq_comm]
  · simp only [false_iff, not_and]
    rintro rfl
    exact absurd hown hslop

theorem balance_eq_error_iff (p : Planner) (s : Snapshot) (e : PlanError) :
    (p.balance s).result = .error e ↔
      2 ≤ s.nodeCount ∧ 1 ≤ s.totalLoad ∧ ¬ s.IsEvenFor s ∧
        ∃ i, p.slop.exact = .error i ∧ e = .inexactSlop i := by
  have htolerates := Slop.tolerates_eq_error_iff p.slop_bound s.summary
  obtain ⟨plans, hplans, -⟩ := exists_movesFor p.logPlans s
  rw [← Snapshot.isBalanced_iff_isEvenFor s.replay_nil]
  by_cases hbalanced : s.summary.isBalanced = true
  · simp [balance_of_isBalanced p hbalanced, hbalanced]
  · have htrivial := mt Snapshot.isBalanced_of_trivial hbalanced
    have hnodes : 2 ≤ s.nodeCount := by omega
    have hshards : 1 ≤ s.totalLoad := by omega
    rw [balance_of_not_isBalanced p hbalanced]
    cases hslop : p.slop.tolerates s.summary with
    | error i =>
      have hexact := ((htolerates i).1 hslop).2
      simp [hbalanced, hnodes, hshards, hexact, eq_comm]
    | ok within =>
      -- An unbalanced cluster was tolerated or not, so the slop has an exact value.
      have hexact (i : InexactSlop) : p.slop.exact ≠ .error i := by
        intro h
        rw [(htolerates i).2 ⟨hbalanced, h⟩] at hslop
        cases hslop
      cases within <;> simp [hplans, hexact]

theorem balance_cases (p : Planner) (s : Snapshot) :
    (p.balance s).result = .ok [] ∨ (p.balance s).result = (movesFor p.logPlans (standings s)).result ∨
      ∃ i, (p.balance s).result = .error (.inexactSlop i) := by
  by_cases hbalanced : s.summary.isBalanced = true
  · exact .inl (balance_of_isBalanced p hbalanced)
  · rw [balance_of_not_isBalanced p hbalanced]
    cases p.slop.tolerates s.summary with
    | error i => exact .inr (.inr ⟨i, rfl⟩)
    | ok within => cases within <;> simp

/-- The loads are uneven, so the slop is asked for its value. -/
theorem balance_boundless :
    (boundless.balance .lopsided).result = .error (.inexactSlop (.unwritable .digits)) := by
  rw [balance_eq_error_iff, ← Snapshot.isBalanced_iff_isEvenFor (Snapshot.replay_nil _)]
  exact ⟨by decide, by decide, by decide, _, Slop.exact_whole_of_not_writable Numeral.not_writable_overlong, rfl⟩

/-! ## Balancers -/

theorem make_ofConfig (c : Config) : make (.double c.slop) c.logPlans = .ok (ofConfig c) :=
  (make_eq_ok_iff _ _ _).2 ⟨rfl, rfl⟩

end Planner

/-- What can go wrong in planning: a slop below zero, and a slop without an exact value where it is asked. -/
theorem planning_fails_iff :
    (∀ slop logPlans e, Planner.make slop logPlans = .error e ↔
      e = .negativeSlop ∧ ∃ x, slop.value? = some x ∧ x < 0) ∧
    (∀ slop logPlans p, Planner.make slop logPlans = .ok p ↔ p.slop = slop ∧ p.logPlans = logPlans) ∧
    (∀ (p : Planner) (s : Snapshot) (e : PlanError), (p.balance s).result = .error e ↔
      2 ≤ s.nodeCount ∧ 1 ≤ s.totalLoad ∧ ¬ s.IsEvenFor s ∧
        ((∃ d, (d = .nan ∨ d = .infinite false) ∧ p.slop = .double d ∧ e = .inexactSlop (.literal d.text)) ∨
          ∃ n, ¬ Numeral.Writable n ∧ p.slop = .whole n ∧ e = .inexactSlop (.unwritable .digits))) ∧
    (∀ s : Snapshot, ∃ plans,
      (∀ loud outcome, Planner.Pairs loud
        (.ofList Standing.heavierFirst ((Planner.standings s).filter Standing.isAbove))
        (.ofList Standing.lighterFirst ((Planner.standings s).filter Standing.isBelow)) outcome ↔
          outcome = ⟨.ok plans, plans.map (.move · loud)⟩) ∧
      ∀ p : Planner, (p.balance s).result = .ok [] ∨ (p.balance s).result = .ok plans ∨
        ∃ i, (p.balance s).result = .error (.inexactSlop i)) ∧
    ∀ (c : Config) (entropy : Int),
      Planner.make (.double c.slop) c.logPlans = .ok (Balancer.start c entropy).result.planner ∧
      ∀ s : Snapshot, ∃ plans, ((Balancer.start c entropy).result.balance s).result = .ok plans := by
  refine ⟨Planner.make_eq_error_iff, Planner.make_eq_ok_iff, ?_, ?_, ?_⟩
  · intro p s e
    rw [Planner.balance_eq_error_iff]
    simp only [Slop.exact_eq_error_iff p.slop_bound]
    constructor
    · rintro ⟨hnodes, hshards, heven, i, ⟨d, hd, hslop, rfl⟩ | ⟨n, hn, hslop, rfl⟩, rfl⟩
      · exact ⟨hnodes, hshards, heven, .inl ⟨d, hd, hslop, rfl⟩⟩
      · exact ⟨hnodes, hshards, heven, .inr ⟨n, hn, hslop, rfl⟩⟩
    · rintro ⟨hnodes, hshards, heven, ⟨d, hd, hslop, rfl⟩ | ⟨n, hn, hslop, rfl⟩⟩
      · exact ⟨hnodes, hshards, heven, _, .inl ⟨d, hd, hslop, rfl⟩, rfl⟩
      · exact ⟨hnodes, hshards, heven, _, .inr ⟨n, hn, hslop, rfl⟩, rfl⟩
  · intro s
    obtain ⟨plans, hplans, -⟩ := Planner.exists_movesFor false s
    have hloop (loud : Bool) :
        Planner.movesFor loud (Planner.standings s) = ⟨.ok plans, plans.map (.move · loud)⟩ := by
      have hresult := (Planner.movesFor_result false loud _).trans hplans
      rw [← Planner.announces_movesFor loud _ plans hresult, ← hresult]
    refine ⟨plans, fun loud outcome => ?_, fun p => ?_⟩
    · rw [Planner.pairs_movesFor_iff, hloop]
    · have hcases := p.balance_cases s
      rwa [hloop] at hcases
  · intro c entropy
    have hslop : (Planner.ofConfig c).slop.isExact = true := Double.isFinite_of_inUnitInterval c.slop_bounds
    exact ⟨Planner.make_ofConfig c, fun s => (Planner.ofConfig c).exists_balance hslop s⟩

/-- A slop that is accepted and is neither NaN nor infinite, and still it cannot be compared. -/
theorem planning_fails_boundless :
    Planner.make (.whole Numeral.overlong) false = .ok .boundless ∧
      (Planner.boundless.balance .lopsided).result = .error (.inexactSlop (.unwritable .digits)) :=
  ⟨(Planner.make_eq_ok_iff _ _ _).2 ⟨rfl, rfl⟩, Planner.balance_boundless⟩

end Placement
