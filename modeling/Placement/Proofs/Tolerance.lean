import Placement.Proofs.Decimal
import Placement.Proofs.Failure

/-!
# What a slop tolerates

A planner moves nothing exactly when all loads lie between the average lowered by its slop, rounded down, and
the average raised by it, rounded up (`Planner.balance_tolerates`).  Each of its early exits is a case of this
one formula: a balanced cluster is within the bounds of slop zero (`Slop.withinBounds_zero`), and the bounds
only widen with the slop (`Slop.withinBounds_mono`).
-/

namespace Placement
set_option autoImplicit false

/-! ## Exact values -/

theorem Decimal.toRat_nonneg (d : Decimal) : 0 ≤ d.toRat := by
  unfold toRat
  split_ifs <;> exact Rat.mkRat_nonneg (Int.natCast_nonneg _) _

theorem Double.decimalValue?_nonneg {d : Double} {q : ℚ} (hd : d.isNegative = false)
    (h : d.decimalValue? = some q) : 0 ≤ q ∧ (d.isZero = true → q = 0) := by
  cases d with
  | nan => cases h
  | infinite negative => cases h
  | finite negative code =>
    have hzero : code.val = 0 → (Decimal.shortest code.val).toRat = 0 := by
      intro h0
      rw [h0]
      decide
    have hnonneg := (Decimal.shortest code.val).toRat_nonneg
    simp only [decimalValue?, Option.some.injEq] at h
    simp only [isNegative, Bool.and_eq_false_iff, bne_eq_false_iff_eq] at hd
    simp only [isZero, beq_iff_eq]
    subst h
    split_ifs with hneg
    · have h0 := hzero (by simpa [hneg] using hd)
      simp [h0]
    · exact ⟨hnonneg, hzero⟩

namespace Slop

/-- The number itself for a whole one that can be written, and for a double the decimal that its text states. -/
def stated? : Slop → Option ℚ
  | .whole n => if Numeral.Writable n then some n else none
  | .double d => d.stated?

variable {slop : Slop} {q r : ℚ}

theorem exact_eq_ok_iff : slop.exact = .ok q ↔ slop.stated? = some q := by
  cases slop with
  | whole n =>
    rw [stated?]
    split_ifs with h
    · simp [exact_whole_of_writable h]
    · simp [exact_whole_of_not_writable h]
  | double d =>
    rw [exact, stated?, Double.stated?_eq]
    cases d.decimalValue? <;> simp

theorem exists_stated? (h : slop.isExact = true) : ∃ q, slop.stated? = some q := by
  obtain ⟨q, hq⟩ := isExact_iff.1 h
  exact ⟨q, exact_eq_ok_iff.1 hq⟩

theorem stated?_nonneg (hslop : slop.isNegative = false) (h : slop.stated? = some q) :
    0 ≤ q ∧ (slop.isZero = true → q = 0) := by
  cases slop with
  | whole n =>
    simp only [isNegative, decide_eq_false_iff_not, not_lt] at hslop
    rw [stated?, Option.ite_none_right_eq_some, Option.some.injEq] at h
    obtain ⟨-, rfl⟩ := h
    simpa [isZero] using hslop
  | double d =>
    rw [stated?, Double.stated?_eq] at h
    exact Double.decimalValue?_nonneg hslop h

/-! ## Bounds -/

section
variable {s : LoadSummary} (hnodes : 0 < s.nodeCount)
include hnodes

theorem withinBounds_iff (q : ℚ) : withinBounds s q = true ↔
    s.maxLoad ≤ ⌈(s.shardCount / s.nodeCount : ℚ) * (1 + q)⌉ ∧
      ⌊(s.shardCount / s.nodeCount : ℚ) * (1 - q)⌋ ≤ s.minLoad := by
  have haverage : mkRat s.shardCount s.nodeCount.toNat = (s.shardCount / s.nodeCount : ℚ) := by
    rw [Rat.mkRat_eq_div, ← Int.cast_natCast, Int.toNat_of_nonneg hnodes.le]
  -- The floors are the same by definition, the ceilings are not.
  have hceil (x : ℚ) : x.ceil = ⌈x⌉ := Rat.ceil_eq_neg_floor_neg x
  rw [withinBounds, haverage, Bool.and_eq_true, decide_eq_true_eq, decide_eq_true_eq, hceil]
  rfl

/-- With slop zero the bounds are the floor and the ceiling of the average. -/
theorem withinBounds_zero : withinBounds s 0 = s.isBalanced := by
  obtain ⟨n, hn⟩ : ∃ n : ℕ, s.nodeCount = n := Int.eq_ofNat_of_zero_le hnodes.le
  have hne : s.nodeCount ≠ 0 := hnodes.ne'
  have hfloor : ⌊(s.shardCount / s.nodeCount : ℚ)⌋ = s.floorAverage := by
    rw [LoadSummary.floorAverage, if_neg hne, Int.fdiv_eq_ediv_of_nonneg _ hnodes.le, hn, Int.cast_natCast,
      Rat.floor_intCast_div_natCast]
  have hceil : ⌈(s.shardCount / s.nodeCount : ℚ)⌉ = s.ceilAverage := by
    rw [LoadSummary.ceilAverage, if_neg hne, Int.fdiv_eq_ediv_of_nonneg _ hnodes.le, hn, Int.cast_natCast,
      Rat.ceil_intCast_div_natCast]
  rw [Bool.eq_iff_iff, withinBounds_iff hnodes, add_zero, sub_zero, mul_one, hfloor, hceil,
    LoadSummary.isBalanced, Bool.and_eq_true, decide_eq_true_eq, decide_eq_true_eq, and_comm]

theorem withinBounds_mono (hshards : 0 ≤ s.shardCount) (hle : q ≤ r) (h : withinBounds s q = true) :
    withinBounds s r = true := by
  have haverage : 0 ≤ (s.shardCount / s.nodeCount : ℚ) := by positivity
  rw [withinBounds_iff hnodes] at h ⊢
  constructor
  · refine h.1.trans (Int.ceil_mono ?_)
    gcongr
  · refine (Int.floor_mono ?_).trans h.2
    gcongr

/-- The shortcuts for balanced clusters and for slop zero decide as the bounds do. -/
theorem tolerates_eq (hshards : 0 ≤ s.shardCount) (hslop : slop.isNegative = false)
    (h : slop.stated? = some q) : slop.tolerates s = .ok (withinBounds s q) := by
  obtain ⟨hnonneg, hzero⟩ := stated?_nonneg hslop h
  by_cases hbalanced : s.isBalanced = true
  · have hwithin := withinBounds_mono hnodes hshards hnonneg ((withinBounds_zero hnodes).trans hbalanced)
    rw [tolerates, if_pos hbalanced, hwithin]
  · rw [tolerates, if_neg hbalanced, hslop, Bool.false_or]
    split_ifs with hslop0
    · rw [hzero hslop0, withinBounds_zero hnodes, Bool.eq_false_of_not_eq_true hbalanced]
    · rw [exact_eq_ok_iff.2 h]
      rfl

end
end Slop

/-! ## Planning with a slop -/

namespace Snapshot
variable {s : Snapshot}

def averageLoad (s : Snapshot) : ℚ := s.totalLoad / s.nodeCount

theorem summary_nodeCount_pos (h : s.nodeCount ≠ 0) : 0 < s.summary.nodeCount := by
  rw [summary_nodeCount]
  omega

theorem summary_shardCount_nonneg (s : Snapshot) : 0 ≤ s.summary.shardCount := by
  rw [summary_shardCount]
  omega

theorem exists_extremes (h : s.nodeCount ≠ 0) :
    ∃ most least, IsGreatest {load | load ∈ s.loads.values} most ∧
      IsLeast {load | load ∈ s.loads.values} least ∧
      s.summary.maxLoad = (most : ℕ) ∧ s.summary.minLoad = (least : ℕ) := by
  have hlength : s.loads.values.length = s.nodeCount := by
    rw [s.loads_values_perm.length_eq, List.length_map, length_nodes]
  have hne : s.loads.values.toFinset.Nonempty := by
    rw [List.toFinset_nonempty_iff, ← List.length_pos_iff]
    omega
  have hne' : s.loads.values.map (fun load : ℕ => (load : ℤ)) ≠ [] := by
    rw [← List.length_pos_iff, List.length_map]
    omega
  have hmost := s.loads.values.toFinset.isGreatest_max' hne
  have hleast := s.loads.values.toFinset.isLeast_min' hne
  rw [List.coe_toFinset] at hmost hleast
  refine ⟨_, _, hmost, hleast, ?_, ?_⟩
  · apply le_antisymm
    · rw [summary, LoadSummary.maxLoad_le_iff hne', List.forall_mem_map]
      exact fun load hload => Int.ofNat_le.2 (hmost.2 hload)
    · exact LoadSummary.le_maxLoad (List.mem_map_of_mem hmost.1)
  · apply le_antisymm
    · exact LoadSummary.minLoad_le (List.mem_map_of_mem hleast.1)
    · rw [summary, LoadSummary.le_minLoad_iff hne', List.forall_mem_map]
      exact fun load hload => Int.ofNat_le.2 (hleast.2 hload)

/-- Moves to the targets are needed when some load is outside of the average. -/
theorem Reaches.ne_nil {plans : List MovePlan} (h : s.Reaches s.goal plans)
    (hbalanced : ¬ s.summary.isBalanced = true) : plans ≠ [] := by
  rintro rfl
  have heven := h.isEvenFor s.card_raised s.replay_nil
  exact hbalanced ((isBalanced_iff_isEvenFor s.replay_nil).2 heven)

end Snapshot

namespace Planner
variable {p : Planner} {s : Snapshot} {q : ℚ}

/-- All exits of a planner in one: no moves within the bounds, and else those that reach the targets. -/
theorem balance_eq_ite (hq : p.slop.stated? = some q) (hnodes : s.nodeCount ≠ 0) :
    (p.balance s).result = if Slop.withinBounds s.summary q then .ok []
      else (movesFor p.logPlans (standings s)).result := by
  have hcount := Snapshot.summary_nodeCount_pos hnodes
  have hshards := s.summary_shardCount_nonneg
  have htolerates := Slop.tolerates_eq hcount hshards p.slop_bound hq
  by_cases hbalanced : s.summary.isBalanced = true
  · rw [Slop.tolerates, if_pos hbalanced, Except.ok.injEq] at htolerates
    rw [balance_of_isBalanced p hbalanced, ← htolerates, if_pos rfl]
  · rw [balance_of_not_isBalanced p hbalanced, htolerates]
    cases Slop.withinBounds s.summary q <;> rfl

theorem balance_tolerates (p : Planner) (s : Snapshot) (hslop : p.slop.isExact = true)
    (hnodes : s.nodeCount ≠ 0) :
    ∃ q most least plans, p.slop.stated? = some q ∧ 0 ≤ q ∧
      IsGreatest {load | load ∈ s.loads.values} most ∧ IsLeast {load | load ∈ s.loads.values} least ∧
      (p.balance s).result = .ok plans ∧
      (plans = [] ↔ (most : ℤ) ≤ ⌈s.averageLoad * (1 + q)⌉ ∧ ⌊s.averageLoad * (1 - q)⌋ ≤ (least : ℤ)) ∧
      (plans ≠ [] → ∀ zero : Planner, zero.slop.stated? = some 0 → (zero.balance s).result = .ok plans) ∧
      (plans = [] → ∀ wider : Planner, ∀ r, wider.slop.stated? = some r → q ≤ r →
        (wider.balance s).result = .ok []) := by
  obtain ⟨q, hq⟩ := Slop.exists_stated? hslop
  obtain ⟨most, least, hmost, hleast, hmax, hmin⟩ := Snapshot.exists_extremes hnodes
  obtain ⟨plans, hplans, hreaches⟩ := exists_movesFor p.logPlans s
  have hcount := Snapshot.summary_nodeCount_pos hnodes
  have hshards := s.summary_shardCount_nonneg
  have hnonneg := (Slop.stated?_nonneg p.slop_bound hq).1
  have hbounds : Slop.withinBounds s.summary q = true ↔
      (most : ℤ) ≤ ⌈s.averageLoad * (1 + q)⌉ ∧ ⌊s.averageLoad * (1 - q)⌋ ≤ (least : ℤ) := by
    rw [Slop.withinBounds_iff hcount, hmax, hmin, Snapshot.summary_nodeCount, Snapshot.summary_shardCount]
    rfl
  have hresult := balance_eq_ite hq hnodes
  by_cases hwithin : Slop.withinBounds s.summary q = true
  · rw [if_pos hwithin] at hresult
    refine ⟨q, most, least, [], hq, hnonneg, hmost, hleast, hresult, ?_, fun hne => absurd rfl hne, ?_⟩
    · exact iff_of_true rfl (hbounds.1 hwithin)
    · intro _ wider r hr hle
      rw [balance_eq_ite hr hnodes, if_pos (Slop.withinBounds_mono hcount hshards hle hwithin)]
  · have hzero : ¬ Slop.withinBounds s.summary 0 = true :=
      mt (Slop.withinBounds_mono hcount hshards hnonneg) hwithin
    have hne : plans ≠ [] := hreaches.ne_nil (by rwa [← Slop.withinBounds_zero hcount])
    rw [if_neg hwithin, hplans] at hresult
    refine ⟨q, most, least, plans, hq, hnonneg, hmost, hleast, hresult, ?_, ?_, fun hnil => absurd hnil hne⟩
    · exact iff_of_false hne (mt hbounds.2 hwithin)
    · intro _ zero hr
      rw [balance_eq_ite hr hnodes, if_neg hzero, movesFor_result p.logPlans, hplans]

theorem averageLoad_lopsided : Snapshot.lopsided.averageLoad = 5 / 4 := by
  have htotal : Snapshot.lopsided.totalLoad = 5 := by decide
  have hcount : Snapshot.lopsided.nodeCount = 4 := by decide
  rw [Snapshot.averageLoad, htotal, hcount]
  norm_num

/-- A planner whose upper bound for `Snapshot.lopsided` is a whole number. -/
def threeFifths : Planner := ⟨.double (.ofQuotient false 3 5), false, by decide⟩

theorem balance_tolerates_lopsided :
    threeFifths.slop.isExact = true ∧ Snapshot.lopsided.nodeCount ≠ 0 ∧
      Snapshot.lopsided.averageLoad * (1 + 3 / 5) = 2 ∧
      ∃ plans, (threeFifths.balance .lopsided).result = .ok plans ∧ plans ≠ [] ∧
        (strict.balance .lopsided).result = .ok plans := by
  have hslop : threeFifths.slop.isExact = true := by decide
  have hnodes : Snapshot.lopsided.nodeCount ≠ 0 := by decide
  have hbound : Snapshot.lopsided.averageLoad * (1 + 3 / 5) = 2 := by
    rw [averageLoad_lopsided]
    norm_num
  have hstated : threeFifths.slop.stated? = some (3 / 5) := by decide +kernel
  obtain ⟨q, most, least, plans, hq, -, hmost, -, hplans, hnil, hzero, -⟩ :=
    balance_tolerates threeFifths .lopsided hslop hnodes
  rw [hstated, Option.some.injEq] at hq
  have hthree : 3 ≤ most := hmost.2 (show 3 ∈ Snapshot.lopsided.loads.values by decide)
  have hne : plans ≠ [] := by
    intro h
    have hle := (hnil.1 h).1
    rw [← hq, hbound, Int.ceil_ofNat] at hle
    omega
  exact ⟨hslop, hnodes, hbound, plans, hplans, hne, hzero hne strict (by decide +kernel)⟩

/-- The loads are well within the bounds of a slop that cannot be written, and still there is no answer. -/
theorem balance_tolerates_boundless :
    boundless.slop = .whole Numeral.overlong ∧ boundless.slop.isNegative = false ∧
      IsGreatest {load | load ∈ Snapshot.lopsided.loads.values} 3 ∧
      IsLeast {load | load ∈ Snapshot.lopsided.loads.values} 0 ∧
      (3 : ℤ) ≤ ⌈Snapshot.lopsided.averageLoad * (1 + (Numeral.overlong : ℚ))⌉ ∧
      ⌊Snapshot.lopsided.averageLoad * (1 - (Numeral.overlong : ℚ))⌋ ≤ (0 : ℤ) ∧
      (boundless.balance .lopsided).result = .error (.inexactSlop (.unwritable .digits)) := by
  have hlong : (2 : ℚ) ≤ Numeral.overlong := by exact_mod_cast Numeral.two_le_overlong
  have hmost : ∀ load ∈ Snapshot.lopsided.loads.values, load ≤ 3 := by decide
  refine ⟨rfl, boundless.slop_bound, ⟨by decide, hmost⟩, ⟨by decide, fun load _ => load.zero_le⟩, ?_, ?_,
    balance_boundless⟩
  · rw [averageLoad_lopsided, Int.le_ceil_iff]
    push_cast
    linarith
  · rw [averageLoad_lopsided, ← Int.cast_le (R := ℚ)]
    refine (Int.floor_le _).trans ?_
    push_cast
    linarith

end Planner
end Placement
