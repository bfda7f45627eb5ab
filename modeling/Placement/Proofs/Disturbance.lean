import Placement.Proofs.MoveCount

/-!
# Nodes in range that move

A list of moves of least length wastes none, so it takes a node in range along only when the load of the
node changes.  Which lists of least length take the fewest of these nodes along depends on the nodes at the
ceiling that do not stay there.  A planner raises the heaviest nodes first; when there are nodes above the
ceiling, nodes at the ceiling and fewer ceilings than such nodes together (`Snapshot.Crowded`), it pushes a
node down from the ceiling that could have stayed, and in all other cases it disturbs as few as possible.
-/

namespace Placement
set_option autoImplicit false

namespace Snapshot
open MovePlan
variable {s after : Snapshot} {plans : List MovePlan} {top : Finset Node}

def InRange (s : Snapshot) (node : Node) : Prop :=
  s.load node = .ok s.floorLoad ∨ s.load node = .ok s.ceilLoad

instance (s : Snapshot) : DecidablePred s.InRange := fun _ => inferInstanceAs (Decidable (_ ∨ _))

/-- How many nodes in range are the source or the destination of a move. -/
def disturbed (s : Snapshot) (plans : List MovePlan) : Nat :=
  s.nodes.countP fun node => s.InRange node ∧ ∃ plan ∈ plans, plan.source = node ∨ plan.destination = node

structure Crowded (s : Snapshot) : Prop where
  spare : 0 < s.leftover
  above : ∃ load ∈ s.loads.values, s.ceilLoad < load
  level : s.ceilLoad ∈ s.loads.values
  short : s.leftover < s.loads.values.countP fun load => s.ceilLoad ≤ load

/-- The nodes in range whose load is not the one that they would have with some nodes lifted. -/
def upset (s : Snapshot) (top : Finset Node) : Finset Node :=
  s.members.filter fun node =>
    (s.count node = s.floorLoad ∨ s.count node = s.ceilLoad) ∧ s.count node ≠ s.lifted top node

/-- The nodes at the ceiling, when it is above the floor. -/
def atCeiling (s : Snapshot) : Finset Node := s.members.filter fun node => s.count node = s.floorLoad + 1

/-! ## Moves without waste -/

/-- When moves are no more than the shards that nodes lose, only nodes whose loads change take part. -/
theorem exists_move_iff (h : s.replay plans = .ok after)
    (htight : plans.length ≤ ∑ node ∈ s.members, (s.count node - after.count node)) {node : Node}
    (hnode : node ∈ s.nodes) :
    (∃ plan ∈ plans, plan.source = node ∨ plan.destination = node) ↔ s.count node ≠ after.count node := by
  have hle : ∀ other ∈ s.members, s.count other - after.count other ≤ (departures other plans).length := by
    intro other hother
    have hcount := count_of_replay h ((s.mem_members other).1 hother)
    omega
  have hsources := sum_departures fun plan hm => (ends_mem_of_replay h plan hm).1
  have hsum : ∑ other ∈ s.members, (s.count other - after.count other) =
      ∑ other ∈ s.members, (departures other plans).length :=
    le_antisymm (Finset.sum_le_sum hle) (hsources.le.trans htight)
  have hleave := (Finset.sum_eq_sum_iff_of_le hle).1 hsum node ((s.mem_members node).2 hnode)
  have hcount := count_of_replay h hnode
  have hends := countP_ends node plans
  have hpos : (∃ plan ∈ plans, plan.source = node ∨ plan.destination = node) ↔
      0 < plans.countP fun plan => plan.source = node ∨ plan.destination = node := by
    simp only [List.countP_pos_iff, decide_eq_true_eq]
  rw [hpos, hends]
  omega

theorem disturbed_eq_card_upset (h : s.replay plans = .ok after)
    (htight : plans.length ≤ ∑ node ∈ s.members, (s.count node - after.count node))
    (hcount : ∀ node ∈ s.nodes, after.count node = s.lifted top node) :
    s.disturbed plans = (s.upset top).card := by
  rw [disturbed, countP_nodes, upset]
  apply congrArg Finset.card
  apply Finset.filter_congr
  intro node hmem
  have hnode := (s.mem_members node).1 hmem
  rw [InRange, load_of_mem hnode, Except.ok.injEq, Except.ok.injEq, exists_move_iff h htight hnode,
    hcount node hnode]

theorem Reaches.disturbed_eq (h : s.Reaches (s.lifted top) plans) (hs : s.WellFormed) :
    s.disturbed plans = (s.upset top).card := by
  obtain ⟨after, hafter⟩ := h.exists_replay hs
  have hcount : ∀ node ∈ s.nodes, after.count node = s.lifted top node := by
    intro node hnode
    exact h.count_after hafter hnode
  apply disturbed_eq_card_upset hafter _ hcount
  rw [h.length_eq_sum]
  apply Finset.sum_le_sum
  intro node hnode
  rw [hcount node ((s.mem_members node).1 hnode)]

/-- Moves of least length to even loads lift as many nodes above the floor as possible and waste nothing. -/
theorem tight_of_length (h : s.replay plans = .ok after)
    (hlength : plans.length + min s.leftover s.heavy.card = s.excess) (hcard : top.card = s.leftover)
    (hcount : ∀ node ∈ s.nodes, after.count node = s.lifted top node) :
    (s.heavy ∩ top).card = min s.leftover s.heavy.card ∧
      plans.length ≤ ∑ node ∈ s.members, (s.count node - after.count node) := by
  have hlosses := sum_losses_le h
  have hsum := sum_losses_add_card hcount
  have hinter := card_heavy_inter_le hcard
  constructor <;> omega

/-! ## Which nodes are upset -/

theorem atCeiling_subset_heavy (s : Snapshot) : s.atCeiling ⊆ s.heavy := by
  apply Finset.monotone_filter_right
  intro node _ hload
  omega

theorem atCeiling_eq_heavy (hlow : ∀ node ∈ s.nodes, s.count node ≤ s.floorLoad + 1) :
    s.atCeiling = s.heavy := by
  apply Finset.Subset.antisymm s.atCeiling_subset_heavy
  intro node hheavy
  rw [mem_heavy_iff] at hheavy
  rw [atCeiling, Finset.mem_filter, mem_members]
  have hle := hlow node hheavy.1
  exact ⟨hheavy.1, by omega⟩

/-- When only nodes above the floor are lifted, those at the ceiling are upset that are not lifted. -/
theorem upset_of_subset_heavy (hleft : s.leftover ≠ 0) (htop : top ⊆ s.heavy) :
    s.upset top = s.atCeiling \ top := by
  ext node
  rw [upset, atCeiling, Finset.mem_filter, Finset.mem_sdiff, Finset.mem_filter, lifted,
    ceilLoad_of_leftover hleft, and_assoc]
  apply and_congr_right
  intro _
  by_cases hlift : node ∈ top
  · have hheavy := ((s.mem_heavy_iff node).1 (htop hlift)).2
    simp only [hlift, if_true, not_true, and_false, iff_false]
    omega
  · simp only [hlift, if_false, not_false_iff, and_true]
    omega

/-- When all nodes above the floor are lifted, those at the floor are upset that are lifted as well. -/
theorem upset_of_heavy_subset (hleft : s.leftover ≠ 0) (hsubset : top ⊆ s.members) (htop : s.heavy ⊆ top) :
    s.upset top = top.filter fun node => s.count node = s.floorLoad := by
  ext node
  rw [upset, Finset.mem_filter, Finset.mem_filter, lifted, ceilLoad_of_leftover hleft]
  by_cases hlift : node ∈ top
  · simp only [hlift, hsubset hlift, if_true, true_and]
    omega
  · have hlow : node ∈ s.members → ¬ s.floorLoad < s.count node := by
      intro hmem hlt
      exact hlift (htop ((s.mem_heavy_iff node).2 ⟨(s.mem_members node).1 hmem, hlt⟩))
    simp only [hlift, if_false, false_and, iff_false]
    rintro ⟨hmem, hrange, hne⟩
    have hnot := hlow hmem
    omega

theorem subset_heavy_of_card (hle : s.leftover ≤ s.heavy.card) (hcard : top.card = s.leftover)
    (hkeep : (s.heavy ∩ top).card = min s.leftover s.heavy.card) : top ⊆ s.heavy := by
  have hinter : s.heavy ∩ top = top := by
    apply Finset.eq_of_subset_of_card_le Finset.inter_subset_right
    omega
  exact Finset.inter_eq_right.1 hinter

theorem heavy_subset_of_card (hle : s.heavy.card ≤ s.leftover)
    (hkeep : (s.heavy ∩ top).card = min s.leftover s.heavy.card) : s.heavy ⊆ top := by
  have hinter : s.heavy ∩ top = s.heavy := by
    apply Finset.eq_of_subset_of_card_le Finset.inter_subset_left
    omega
  exact Finset.inter_eq_left.1 hinter

/-! ## Room for every node above the floor -/

/-- With room for all nodes above the floor the nodes below it come next, so the fewest nodes at the floor
are lifted. -/
theorem upset_raised_le_of_room (hleft : s.leftover ≠ 0) (hroom : s.heavy.card ≤ s.leftover)
    (hsubset : top ⊆ s.members) (hcard : top.card = s.leftover)
    (hkeep : (s.heavy ∩ top).card = min s.leftover s.heavy.card) :
    (s.upset s.raised).card ≤ (s.upset top).card := by
  have htop := heavy_subset_of_card hroom hkeep
  have hraised := heavy_subset_of_card hroom s.card_heavy_inter_raised
  rw [upset_of_heavy_subset hleft hsubset htop, upset_of_heavy_subset hleft s.raised_subset hraised]
  rcases Finset.eq_empty_or_nonempty (s.raised.filter fun node => s.count node = s.floorLoad) with
    hnone | ⟨node, hnode⟩
  · rw [hnone, Finset.card_empty]
    exact Nat.zero_le _
  · rw [Finset.mem_filter] at hnode
    have hothers : (top.filter fun node => ¬ s.count node = s.floorLoad) ⊆
        s.raised.filter fun node => ¬ s.count node = s.floorLoad := by
      intro other hother
      rw [Finset.mem_filter] at hother ⊢
      refine ⟨?_, hother.2⟩
      by_contra hnot
      have hmem := (s.mem_members other).1 (hsubset hother.1)
      rcases Nat.lt_or_gt_of_ne hother.2 with hlt | hgt
      · exact count_ne_floor_of_raised hnode.1 hmem hnot hlt hnode.2
      · exact hnot (hraised ((s.mem_heavy_iff other).2 ⟨hmem, hgt⟩))
    have hle := Finset.card_le_card hothers
    have hsplit := Finset.card_filter_add_card_filter_not (s := top) fun node => s.count node = s.floorLoad
    have hsplit' := Finset.card_filter_add_card_filter_not (s := s.raised)
      fun node => s.count node = s.floorLoad
    have hcard' := s.card_raised
    omega

/-! ## Crowds -/

theorem mem_loads_iff (s : Snapshot) (load : Nat) :
    load ∈ s.loads.values ↔ ∃ node ∈ s.nodes, s.count node = load := by
  rw [s.loads_values_perm.mem_iff, List.mem_map]

theorem crowded_iff (s : Snapshot) :
    s.Crowded ↔ s.leftover ≠ 0 ∧ (∃ node ∈ s.nodes, s.floorLoad + 1 < s.count node) ∧
      s.atCeiling.Nonempty ∧ s.leftover < s.heavy.card := by
  by_cases hleft : s.leftover = 0
  · apply iff_of_false
    · intro hc
      have hspare := hc.spare
      omega
    · intro h
      exact h.1 hleft
  · have hceil := ceilLoad_of_leftover hleft
    have habove : (∃ load ∈ s.loads.values, s.ceilLoad < load) ↔
        ∃ node ∈ s.nodes, s.floorLoad + 1 < s.count node := by
      simp [mem_loads_iff, hceil]
    have hlevel : s.ceilLoad ∈ s.loads.values ↔ s.atCeiling.Nonempty := by
      simp only [mem_loads_iff, hceil, atCeiling, Finset.filter_nonempty_iff, mem_members]
    have hshort : (s.leftover < s.loads.values.countP fun load => s.ceilLoad ≤ load) ↔
        s.leftover < s.heavy.card := by
      simp only [hceil, countP_loads_eq_card_heavy]
    rw [← habove, ← hlevel, ← hshort]
    constructor
    · intro hc
      exact ⟨hleft, hc.above, hc.level, hc.short⟩
    · rintro ⟨-, h1, h2, h3⟩
      exact ⟨Nat.pos_of_ne_zero hleft, h1, h2, h3⟩

/-- Without a crowd no choice of the lifted nodes upsets fewer than the raised ones. -/
theorem upset_raised_le (hcalm : ¬ s.Crowded) (hsubset : top ⊆ s.members) (hcard : top.card = s.leftover)
    (hkeep : (s.heavy ∩ top).card = min s.leftover s.heavy.card) :
    (s.upset s.raised).card ≤ (s.upset top).card := by
  by_cases hleft : s.leftover = 0
  · have htop := Finset.card_eq_zero.1 (hcard.trans hleft)
    have hraised := Finset.card_eq_zero.1 (s.card_raised.trans hleft)
    rw [htop, hraised]
  · rcases Nat.lt_or_ge s.leftover s.heavy.card with hshort | hroom
    · have htop := subset_heavy_of_card hshort.le hcard hkeep
      have hraised := subset_heavy_of_card hshort.le s.card_raised s.card_heavy_inter_raised
      rw [upset_of_subset_heavy hleft htop, upset_of_subset_heavy hleft hraised]
      rcases Finset.eq_empty_or_nonempty s.atCeiling with hnone | hsome
      · rw [hnone, Finset.empty_sdiff, Finset.empty_sdiff]
      · have hlow : ∀ node ∈ s.nodes, s.count node ≤ s.floorLoad + 1 := by
          intro node hnode
          by_contra hgt
          have habove : s.floorLoad + 1 < s.count node := by omega
          exact hcalm (s.crowded_iff.2 ⟨hleft, ⟨node, hnode, habove⟩, hsome, hshort⟩)
        rw [atCeiling_eq_heavy hlow, Finset.card_sdiff_of_subset htop, Finset.card_sdiff_of_subset hraised, hcard,
          s.card_raised]
    · exact upset_raised_le_of_room hleft hroom hsubset hcard hkeep

/-- In a crowd some raised node is above the ceiling and some node at the ceiling is not raised. -/
theorem Crowded.exists_pair (hc : s.Crowded) :
    ∃ high ∈ s.raised, ∃ level ∈ s.atCeiling, s.floorLoad + 1 < s.count high ∧ level ∉ s.raised := by
  obtain ⟨hleft, ⟨node, hnode, habove⟩, ⟨level, hlevel⟩, hshort⟩ := s.crowded_iff.1 hc
  have hcard := s.card_raised
  have hhigh : ∃ high ∈ s.raised, s.floorLoad + 1 < s.count high := by
    by_cases hmem : node ∈ s.raised
    · exact ⟨node, hmem, habove⟩
    · have hpos : 0 < s.raised.card := by omega
      obtain ⟨high, hhigh⟩ := Finset.card_pos.1 hpos
      have hle := count_le_of_raised hhigh hnode hmem (by omega)
      exact ⟨high, hhigh, by omega⟩
  obtain ⟨high, hhigh, hcount⟩ := hhigh
  by_cases hmem : level ∈ s.raised
  · have hless : s.raised.card < s.heavy.card := by omega
    obtain ⟨other, hother, hnot⟩ := Finset.exists_mem_notMem_of_card_lt_card hless
    rw [mem_heavy_iff] at hother
    have hle := count_le_of_raised hmem hother.1 hnot hother.2
    have hload := (Finset.mem_filter.1 hlevel).2
    have hat : other ∈ s.atCeiling :=
      Finset.mem_filter.2 ⟨(s.mem_members other).2 hother.1, by omega⟩
    exact ⟨high, hhigh, other, hat, hcount, hnot⟩
  · exact ⟨high, hhigh, level, hlevel, hcount, hmem⟩

/-- In a crowd it would upset fewer to lift a node at the ceiling in place of a raised one above it. -/
theorem Crowded.exists_calmer (hc : s.Crowded) :
    ∃ top ⊆ s.members, top.card = s.leftover ∧ (s.heavy ∩ top).card = min s.leftover s.heavy.card ∧
      (s.upset top).card < (s.upset s.raised).card := by
  obtain ⟨hleft, -, -, hshort⟩ := s.crowded_iff.1 hc
  have hraised := subset_heavy_of_card hshort.le s.card_raised s.card_heavy_inter_raised
  obtain ⟨high, hhigh, level, hlevel, hcount, hnot⟩ := hc.exists_pair
  have hheavy : insert level (s.raised.erase high) ⊆ s.heavy :=
    Finset.insert_subset (s.atCeiling_subset_heavy hlevel)
      ((Finset.erase_subset high s.raised).trans hraised)
  have hcard : (insert level (s.raised.erase high)).card = s.leftover := by
    have hpos := Finset.card_pos.2 ⟨high, hhigh⟩
    have herase : level ∉ s.raised.erase high := fun hm => hnot (Finset.mem_of_mem_erase hm)
    rw [Finset.card_insert_of_notMem herase, Finset.card_erase_of_mem hhigh, ← s.card_raised]
    omega
  refine ⟨insert level (s.raised.erase high), ?_, hcard, ?_, ?_⟩
  · exact hheavy.trans (Finset.filter_subset _ _)
  · rw [Finset.inter_eq_right.2 hheavy, hcard]
    omega
  · rw [upset_of_subset_heavy hleft hheavy, upset_of_subset_heavy hleft hraised]
    apply Finset.card_lt_card
    rw [Finset.ssubset_iff_of_subset]
    · refine ⟨level, Finset.mem_sdiff.2 ⟨hlevel, hnot⟩, ?_⟩
      simp
    · intro node hnode
      rw [Finset.mem_sdiff, Finset.mem_insert, Finset.mem_erase, not_or, not_and] at hnode
      rw [Finset.mem_sdiff]
      refine ⟨hnode.1, hnode.2.2 ?_⟩
      rintro rfl
      have hload := (Finset.mem_filter.1 hnode.1).2
      omega

end Snapshot

namespace Planner

theorem balance_disturbs_least_iff (p : Planner) (s : Snapshot) (hslop : p.slop.isZero = true)
    (hs : s.WellFormed) :
    ∃ plans, (p.balance s).result = .ok plans ∧
      ((∀ others after, others.length = plans.length → (s.apply others).result = .ok after →
        after.IsEvenFor s → s.disturbed plans ≤ s.disturbed others) ↔ ¬ s.Crowded) := by
  obtain ⟨plans, hplans⟩ := p.exists_balance (Slop.isExact_of_isZero hslop) s
  obtain ⟨rfl, hbalanced⟩ | hreaches := p.balance_outcome hplans
  · refine ⟨[], hplans, iff_of_true ?_ ?_⟩
    · intro others after _ _ _
      simp [Snapshot.disturbed]
    · intro hc
      obtain ⟨hleft, ⟨node, hnode, habove⟩, -⟩ := s.crowded_iff.1 hc
      have hrange := (s.isBalanced_summary_iff.1 (hbalanced hslop)) node hnode
      rw [Snapshot.ceilLoad_of_leftover hleft] at hrange
      omega
  · have hlength := hreaches.length_add_min s.card_heavy_inter_raised
    refine ⟨plans, hplans, ?_, ?_⟩
    · intro hleast hc
      obtain ⟨top, hsubset, hcard, hkeep, hless⟩ := hc.exists_calmer
      obtain ⟨others, -, hothers⟩ := Snapshot.exists_moves_lifted hsubset hcard p.logPlans
      obtain ⟨after, hafter⟩ := hothers.exists_replay hs
      have hsame : others.length = plans.length := by
        have hlength' := hothers.length_add_min hkeep
        omega
      have hle := hleast others after hsame ((s.apply_result others).trans hafter)
        (hothers.isEvenFor hcard hafter)
      rw [hreaches.disturbed_eq hs, hothers.disturbed_eq hs] at hle
      omega
    · intro hcalm others after hsame happly heven
      rw [Snapshot.apply_result] at happly
      rw [← hsame] at hlength
      obtain ⟨top, hsubset, hcard, htop⟩ := heven.exists_lifted happly
      obtain ⟨hkeep, htight⟩ := Snapshot.tight_of_length happly hlength hcard htop
      rw [hreaches.disturbed_eq hs, Snapshot.disturbed_eq_card_upset happly htight htop]
      exact Snapshot.upset_raised_le hcalm hsubset hcard hkeep

theorem balance_disturbs_lopsided :
    Planner.strict.slop.isZero = true ∧ Snapshot.lopsided.WellFormed ∧
      ∃ plans others after, (Planner.strict.balance .lopsided).result = .ok plans ∧
        others.length = plans.length ∧ (Snapshot.lopsided.apply others).result = .ok after ∧
        after.IsEvenFor .lopsided ∧
        Snapshot.lopsided.disturbed others < Snapshot.lopsided.disturbed plans := by
  have hslop : Planner.strict.slop.isZero = true := rfl
  have hs : Snapshot.lopsided.WellFormed := by decide
  have hcrowded : Snapshot.lopsided.Crowded := ⟨by decide, by decide, by decide, by decide⟩
  obtain ⟨plans, hplans, hiff⟩ := balance_disturbs_least_iff .strict .lopsided hslop hs
  have hnot := mt hiff.1 (not_not_intro hcrowded)
  push Not at hnot
  obtain ⟨others, after, hsame, happly, heven, hless⟩ := hnot
  exact ⟨hslop, hs, plans, others, after, hplans, hsame, happly, heven, hless⟩

/-- The host `b` is at the ceiling, and `a` could have served both empty hosts. -/
example : ((Planner.strict.balance .lopsided).result.map fun plans =>
    plans.map fun plan => (plan.source.host, plan.destination.host)) = .ok [("a", "c"), ("b", "d")] := by
  cbv

end Planner
end Placement
