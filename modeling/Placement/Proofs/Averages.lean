import Placement.Proofs.Loads

/-!
# Balanced figures

A summary keeps the extremes of a list of loads but not the loads.  Still its balance test decides about every load:
the averages rounded down and up are at most one apart (`LoadSummary.ceilAverage_bounds`), and loads within one of each
other cannot all lie on one side of their average.  So the test, a spread below two and a look at every load come to
the same (`LoadSummary.isBalanced_agrees`).
-/

namespace Placement.LoadSummary
set_option autoImplicit false

variable {loads : List ℤ}

/-! ## Averages -/

theorem le_floorAverage_iff (h : loads ≠ []) (a : ℤ) :
    a ≤ (ofLoads loads).floorAverage ↔ a * loads.length ≤ loads.sum := by
  have hlength : (0 : ℤ) < loads.length := by exact_mod_cast List.length_pos_of_ne_nil h
  rw [floorAverage, ofLoads_nodeCount, ofLoads_shardCount, if_neg hlength.ne',
    Int.fdiv_eq_ediv_of_nonneg _ hlength.le, Int.le_ediv_iff_mul_le hlength]

theorem ceilAverage_le_iff (h : loads ≠ []) (a : ℤ) :
    (ofLoads loads).ceilAverage ≤ a ↔ loads.sum ≤ a * loads.length := by
  have hlength : (0 : ℤ) < loads.length := by exact_mod_cast List.length_pos_of_ne_nil h
  rw [ceilAverage, ofLoads_nodeCount, ofLoads_shardCount, if_neg hlength.ne',
    Int.fdiv_eq_ediv_of_nonneg _ hlength.le, neg_le, Int.le_ediv_iff_mul_le hlength, neg_mul, neg_le_neg_iff]

theorem ceilAverage_bounds (loads : List ℤ) :
    (ofLoads loads).floorAverage ≤ (ofLoads loads).ceilAverage ∧
      (ofLoads loads).ceilAverage ≤ (ofLoads loads).floorAverage + 1 := by
  by_cases h : loads = []
  · subst h
    decide
  · have hlength : (0 : ℤ) < loads.length := by exact_mod_cast List.length_pos_of_ne_nil h
    have hfloor := (le_floorAverage_iff h _).1 le_rfl
    have hceil := (ceilAverage_le_iff h _).1 le_rfl
    have hnext := mt (le_floorAverage_iff h ((ofLoads loads).floorAverage + 1)).2 (by omega)
    exact ⟨le_of_mul_le_mul_right (hfloor.trans hceil) hlength, (ceilAverage_le_iff h _).2 (not_le.1 hnext).le⟩

/-! ## Extremes -/

theorem minLoad_mem (h : loads ≠ []) : (ofLoads loads).minLoad ∈ loads := by
  have hnext := mt (le_minLoad_iff h ((ofLoads loads).minLoad + 1)).2 (by omega)
  push Not at hnext
  obtain ⟨load, hload, hlt⟩ := hnext
  rwa [le_antisymm (minLoad_le hload) (by omega)]

theorem maxLoad_mem (h : loads ≠ []) : (ofLoads loads).maxLoad ∈ loads := by
  have hnext := mt (maxLoad_le_iff h ((ofLoads loads).maxLoad - 1)).2 (by omega)
  push Not at hnext
  obtain ⟨load, hload, hlt⟩ := hnext
  rwa [le_antisymm (by omega : (ofLoads loads).maxLoad ≤ load) (le_maxLoad hload)]

/-- Loads that are at most one above the least do not reach the next integer on average. -/
theorem floorAverage_le_minLoad (h : loads ≠ []) (hspread : (ofLoads loads).spread < 2) :
    (ofLoads loads).floorAverage ≤ (ofLoads loads).minLoad := by
  rw [spread] at hspread
  have hsum : loads.sum < ((ofLoads loads).minLoad + 1) * loads.length := by
    have hlt := List.sum_lt_sum (l := loads) id (fun _ => (ofLoads loads).minLoad + 1)
      (fun load hload => by have := le_maxLoad hload; simp only [id]; omega)
      ⟨_, minLoad_mem h, by simp⟩
    simpa [mul_comm] using hlt
  have hnext := mt (le_floorAverage_iff h ((ofLoads loads).minLoad + 1)).1 (not_le.2 hsum)
  omega

theorem maxLoad_le_ceilAverage (h : loads ≠ []) (hspread : (ofLoads loads).spread < 2) :
    (ofLoads loads).maxLoad ≤ (ofLoads loads).ceilAverage := by
  rw [spread] at hspread
  have hsum : ((ofLoads loads).maxLoad - 1) * loads.length < loads.sum := by
    have hlt := List.sum_lt_sum (l := loads) (fun _ => (ofLoads loads).maxLoad - 1) id
      (fun load hload => by have := minLoad_le hload; simp only [id]; omega)
      ⟨_, maxLoad_mem h, by simp⟩
    simpa [mul_comm] using hlt
  have hnext := mt (ceilAverage_le_iff h ((ofLoads loads).maxLoad - 1)).1 (not_le.2 hsum)
  omega

/-! ## Balance -/

theorem isBalanced_iff_spread (loads : List ℤ) :
    (ofLoads loads).isBalanced = true ↔ (ofLoads loads).spread < 2 := by
  by_cases h : loads = []
  · subst h
    decide
  · rw [isBalanced, Bool.and_eq_true, decide_eq_true_eq, decide_eq_true_eq]
    constructor
    · rintro ⟨hmin, hmax⟩
      have hbounds := ceilAverage_bounds loads
      rw [spread]
      omega
    · intro hspread
      exact ⟨floorAverage_le_minLoad h hspread, maxLoad_le_ceilAverage h hspread⟩

theorem isBalanced_iff_forall (loads : List ℤ) :
    (ofLoads loads).isBalanced = true ↔
      ∀ load ∈ loads, load = (ofLoads loads).floorAverage ∨ load = (ofLoads loads).ceilAverage := by
  have hbounds := ceilAverage_bounds loads
  rw [isBalanced_ofLoads_iff]
  refine forall₂_congr fun load _ => ?_
  omega

/-- A sum over two neighbouring values counts the greater one. -/
theorem sum_eq_of_neighbours {a : ℤ} (h : ∀ load ∈ loads, load = a ∨ load = a + 1) :
    loads.sum = a * loads.length + loads.count (a + 1) := by
  induction loads with
  | nil => simp
  | cons load loads ih =>
    rw [List.forall_mem_cons] at h
    rw [List.sum_cons, ih h.2, List.length_cons]
    obtain rfl | rfl := h.1
    · rw [List.count_cons_of_ne (by omega)]
      push_cast
      ring
    · rw [List.count_cons_self]
      push_cast
      ring

theorem count_ceil_eq_fmod (h : loads ≠ []) (hbalanced : (ofLoads loads).isBalanced = true) :
    (loads.count ((ofLoads loads).floorAverage + 1) : ℤ) =
      (ofLoads loads).shardCount.fmod (ofLoads loads).nodeCount := by
  have hlength : (ofLoads loads).nodeCount ≠ 0 := by
    rw [ofLoads_nodeCount]
    exact_mod_cast (List.length_pos_of_ne_nil h).ne'
  have hsum : loads.sum = (ofLoads loads).floorAverage * loads.length +
      loads.count ((ofLoads loads).floorAverage + 1) := by
    refine sum_eq_of_neighbours fun load hload => ?_
    have hbounds := ceilAverage_bounds loads
    have hvalue := (isBalanced_iff_forall loads).1 hbalanced load hload
    omega
  have hfloor : (ofLoads loads).floorAverage = (ofLoads loads).shardCount.fdiv (ofLoads loads).nodeCount :=
    if_neg hlength
  rw [← ofLoads_shardCount, ← ofLoads_nodeCount, hfloor] at hsum
  rw [Int.fmod_def, hfloor]
  linarith

/-- Three ways to ask for balance give one answer, and of balanced loads as many are above the average rounded down as
shards are left over. -/
theorem isBalanced_agrees (loads : List ℤ) :
    ((ofLoads loads).isBalanced = true ↔ (ofLoads loads).spread < 2) ∧
    ((ofLoads loads).isBalanced = true ↔
      ∀ load ∈ loads, load = (ofLoads loads).floorAverage ∨ load = (ofLoads loads).ceilAverage) ∧
    (loads ≠ [] → (ofLoads loads).isBalanced = true →
      (loads.count ((ofLoads loads).floorAverage + 1) : ℤ) =
        (ofLoads loads).shardCount.fmod (ofLoads loads).nodeCount) :=
  ⟨isBalanced_iff_spread loads, isBalanced_iff_forall loads, count_ceil_eq_fmod⟩

/-- Loads below zero: the average -4/3 is rounded down to -2, and two loads are above that. -/
theorem isBalanced_agrees_negative :
    [-1, -2, -1] ≠ ([] : List ℤ) ∧ (ofLoads [-1, -2, -1]).isBalanced = true ∧ (ofLoads [-1, -2, -1]).spread < 2 ∧
      (∀ load ∈ [-1, -2, -1], load = (-2 : ℤ) ∨ load = -1) ∧
      (([-1, -2, -1] : List ℤ).count (-1) : ℤ) = (-4 : ℤ).fmod 3 := by
  have hne : [-1, -2, -1] ≠ ([] : List ℤ) := by decide
  have hbalanced : (ofLoads [-1, -2, -1]).isBalanced = true := by decide
  obtain ⟨hspread, hevery, hcount⟩ := isBalanced_agrees [-1, -2, -1]
  exact ⟨hne, hbalanced, hspread.1 hbalanced, hevery.1 hbalanced, hcount hne hbalanced⟩

end Placement.LoadSummary
