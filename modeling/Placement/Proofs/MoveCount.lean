import Placement.Proofs.Balancing

/-!
# The number of moves

Every move takes one shard from one node, so moves that lead to given loads are at least as many as the
shards that nodes lose.  For even loads this number only depends on how many of the nodes above the floor
keep one more shard than the floor, and a planner raises as many of them as it can.
-/

namespace Placement
set_option autoImplicit false

namespace Snapshot
open MovePlan
variable {s after : Snapshot} {plans : List MovePlan}

def heavy (s : Snapshot) : Finset Node := s.members.filter fun node => s.floorLoad < s.count node

/-- How many shards the nodes have beyond the floor. -/
def excess (s : Snapshot) : Nat := ∑ node ∈ s.members, (s.count node - s.floorLoad)

theorem mem_heavy_iff (s : Snapshot) (node : Node) :
    node ∈ s.heavy ↔ node ∈ s.nodes ∧ s.floorLoad < s.count node := by
  rw [heavy, Finset.mem_filter, mem_members]

/-! ## Losses -/

theorem sum_losses_le (h : s.replay plans = .ok after) :
    ∑ node ∈ s.members, (s.count node - after.count node) ≤ plans.length := by
  rw [← sum_departures fun plan hm => (ends_mem_of_replay h plan hm).1]
  apply Finset.sum_le_sum
  intro node hnode
  have hcount := count_of_replay h ((s.mem_members node).1 hnode)
  omega

/-- A node above the floor that is lifted has one shard less to lose. -/
theorem sum_losses_lifted (s : Snapshot) (top : Finset Node) :
    ∑ node ∈ s.members, (s.count node - s.lifted top node) + (s.heavy ∩ top).card = s.excess := by
  have hcard : (s.heavy ∩ top).card =
      ∑ node ∈ s.members, if s.floorLoad < s.count node ∧ node ∈ top then 1 else 0 := by
    rw [Finset.sum_boole, Nat.cast_id]
    congr 1
    ext node
    simp only [Finset.mem_inter, Finset.mem_filter, mem_heavy_iff, mem_members, and_assoc]
  rw [hcard, ← Finset.sum_add_distrib, excess]
  apply Finset.sum_congr rfl
  intro node _
  rw [lifted]
  split_ifs with htop hboth hboth
  · omega
  · have hnot : ¬ s.floorLoad < s.count node := fun hlt => hboth ⟨hlt, htop⟩
    omega
  · exact absurd hboth.2 htop
  · omega

theorem sum_losses_add_card {top : Finset Node}
    (hcount : ∀ node ∈ s.nodes, after.count node = s.lifted top node) :
    ∑ node ∈ s.members, (s.count node - after.count node) + (s.heavy ∩ top).card = s.excess := by
  rw [← s.sum_losses_lifted top]
  congr 1
  apply Finset.sum_congr rfl
  intro node hnode
  rw [hcount node ((s.mem_members node).1 hnode)]

/-! ## Nodes that keep one more -/

theorem card_heavy_inter_le {top : Finset Node} (hcard : top.card = s.leftover) :
    (s.heavy ∩ top).card ≤ min s.leftover s.heavy.card := by
  have hleft : (s.heavy ∩ top).card ≤ s.heavy.card := Finset.card_le_card Finset.inter_subset_left
  have hright : (s.heavy ∩ top).card ≤ top.card := Finset.card_le_card Finset.inter_subset_right
  omega

theorem heavy_subset_or (s : Snapshot) : s.heavy ⊆ s.raised ∨ s.raised ⊆ s.heavy := by
  by_cases hall : s.heavy ⊆ s.raised
  · exact .inl hall
  · obtain ⟨other, hother, hnot⟩ := Finset.not_subset.1 hall
    rw [mem_heavy_iff] at hother
    right
    intro node hraised
    have hle := count_le_of_raised hraised hother.1 hnot hother.2
    rw [mem_heavy_iff]
    exact ⟨(s.mem_members node).1 (s.raised_subset hraised), hother.2.trans_le hle⟩

theorem card_heavy_inter_raised (s : Snapshot) :
    (s.heavy ∩ s.raised).card = min s.leftover s.heavy.card := by
  rw [← s.card_raised]
  rcases s.heavy_subset_or with h | h
  · rw [Finset.inter_eq_left.2 h, min_eq_right (Finset.card_le_card h)]
  · rw [Finset.inter_eq_right.2 h, min_eq_left (Finset.card_le_card h)]

theorem Reaches.length_add_min {top : Finset Node} (h : s.Reaches (s.lifted top) plans)
    (hkeep : (s.heavy ∩ top).card = min s.leftover s.heavy.card) :
    plans.length + min s.leftover s.heavy.card = s.excess := by
  rw [h.length_eq_sum, ← hkeep]
  exact s.sum_losses_lifted top

/-- No moves to even loads are fewer. -/
theorem excess_le (h : s.replay plans = .ok after) (heven : after.IsEvenFor s) :
    s.excess ≤ plans.length + min s.leftover s.heavy.card := by
  obtain ⟨top, -, hcard, hcount⟩ := heven.exists_lifted h
  have hlosses := sum_losses_le h
  have hsum := sum_losses_add_card hcount
  have hinter := card_heavy_inter_le hcard
  omega

/-! ## In terms of the loads -/

theorem sum_loads_eq_excess (s : Snapshot) :
    (s.loads.values.map fun load : Nat => max 0 ((load : Int) - s.floorLoad)).sum = s.excess := by
  have hsum := (s.loads_values_perm.map fun load : Nat => max 0 ((load : Int) - s.floorLoad)).sum_eq
  rw [hsum, List.map_map, excess, s.sum_nodes, Nat.cast_sum]
  apply Finset.sum_congr rfl
  intro node _
  rw [Function.comp_apply]
  omega

theorem countP_loads_eq_card_heavy (s : Snapshot) :
    s.loads.values.countP (fun load => s.floorLoad + 1 ≤ load) = s.heavy.card := by
  rw [s.loads_values_perm.countP_eq, List.countP_map]
  exact s.countP_nodes fun node => s.floorLoad + 1 ≤ s.count node

end Snapshot

namespace Planner

theorem balance_minimal (p : Planner) (s : Snapshot) :
    (p.slop.isExact = true → ∃ plans, (p.balance s).result = .ok plans) ∧
    ∀ plans, (p.balance s).result = .ok plans →
      (∀ others after, (s.apply others).result = .ok after → after.IsEvenFor s →
        plans.length ≤ others.length) ∧
      (plans ≠ [] → (plans.length : Int) =
        (s.loads.values.map fun load : Nat => max 0 ((load : Int) - s.floorLoad)).sum -
          (min (s.totalLoad % s.nodeCount) (s.loads.values.countP fun load => s.floorLoad + 1 ≤ load) : Nat)) := by
  refine ⟨fun hslop => p.exists_balance hslop s, fun plans hplans => ?_⟩
  obtain ⟨rfl, -⟩ | hreaches := p.balance_outcome hplans
  · refine ⟨?_, fun hne => absurd rfl hne⟩
    intro others after _ _
    exact Nat.zero_le _
  · have hlength := hreaches.length_add_min s.card_heavy_inter_raised
    refine ⟨?_, fun _ => ?_⟩
    · intro others after happly heven
      rw [Snapshot.apply_result] at happly
      have hexcess := Snapshot.excess_le happly heven
      omega
    · rw [s.sum_loads_eq_excess, s.countP_loads_eq_card_heavy]
      unfold Snapshot.leftover at hlength
      omega

theorem balance_minimal_lopsided :
    Planner.strict.slop.isExact = true ∧
      ∃ plans, (Planner.strict.balance .lopsided).result = .ok plans ∧
        ∀ others after, (Snapshot.lopsided.apply others).result = .ok after →
          after.IsEvenFor .lopsided → plans.length ≤ others.length := by
  obtain ⟨hanswers, hplanned⟩ := balance_minimal .strict .lopsided
  obtain ⟨plans, hplans⟩ := hanswers strict_isExact
  exact ⟨strict_isExact, plans, hplans, (hplanned plans hplans).1⟩

end Planner
end Placement
