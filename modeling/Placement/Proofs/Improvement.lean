import Placement.Proofs.Balancing

/-!
# Every move is an improvement

While moves are carried out one after another, `Snapshot.loadAfter` follows the load of a node.  A move from
a node to one that has at least two shards less brings the loads closer together: no load passes the greatest
or the least one from before, and the sum of the squares goes down.  All moves of a planner are of this kind,
so its list may be cut off anywhere.
-/

namespace Placement
set_option autoImplicit false

namespace MovePlan

/-- What a move makes of the load of a node. -/
def shift (plan : MovePlan) (node : Node) (load : Int) : Int :=
  if node = plan.source then load - 1 else if node = plan.destination then load + 1 else load

def shiftAll (plans : List MovePlan) (node : Node) (load : Int) : Int :=
  plans.foldl (fun load plan => plan.shift node load) load

theorem shiftAll_concat (plans : List MovePlan) (plan : MovePlan) (node : Node) (load : Int) :
    shiftAll (plans ++ [plan]) node load = plan.shift node (shiftAll plans node load) := by
  simp [shiftAll]

theorem shiftAll_eq (plans : List MovePlan) (node : Node) (load : Int) :
    shiftAll plans node load = load - (departures node plans).length + (arrivals node plans).length := by
  induction plans generalizing load with
  | nil => simp [shiftAll]
  | cons plan plans ih =>
    have hstep : shiftAll (plan :: plans) node load = shiftAll plans node (plan.shift node load) := rfl
    rw [hstep, ih, departures_cons, arrivals_cons, shift]
    by_cases hs : plan.source = node
    · have hd : plan.destination ≠ node := fun h => plan.distinct (hs.trans h.symm)
      rw [if_pos hs.symm, if_pos hs, if_neg hd, List.length_cons]
      omega
    · rw [if_neg (Ne.symm hs), if_neg hs]
      by_cases hd : plan.destination = node
      · rw [if_pos hd.symm, if_pos hd, List.length_cons]
        omega
      · rw [if_neg (Ne.symm hd), if_neg hd]

end MovePlan

namespace Snapshot
open MovePlan
variable {s : Snapshot} {plans : List MovePlan} {plan : MovePlan}

/-- The load of a node after some moves, each of which takes one shard from one node to another. -/
def loadAfter (s : Snapshot) (plans : List MovePlan) (node : Node) : Int :=
  shiftAll plans node (s.count node)

def summaryAfter (s : Snapshot) (plans : List MovePlan) : LoadSummary :=
  .ofLoads (s.nodes.map (s.loadAfter plans))

def squaresAfter (s : Snapshot) (plans : List MovePlan) : Int :=
  (s.nodes.map fun node => s.loadAfter plans node ^ 2).sum

/-- A move between two nodes whose source has at least two shards more than its destination. -/
structure Improves (s : Snapshot) (plans : List MovePlan) (plan : MovePlan) : Prop where
  source_mem : plan.source ∈ s.nodes
  destination_mem : plan.destination ∈ s.nodes
  gap : s.loadAfter plans plan.destination + 2 ≤ s.loadAfter plans plan.source

/-! ## One move -/

theorem loadAfter_concat (s : Snapshot) (plans : List MovePlan) (plan : MovePlan) (node : Node) :
    s.loadAfter (plans ++ [plan]) node = plan.shift node (s.loadAfter plans node) :=
  shiftAll_concat plans plan node _

theorem loadAfter_le_maxLoad (plans : List MovePlan) {node : Node} (hnode : node ∈ s.nodes) :
    s.loadAfter plans node ≤ (s.summaryAfter plans).maxLoad :=
  LoadSummary.le_maxLoad (List.mem_map_of_mem (f := s.loadAfter plans) hnode)

theorem minLoad_le_loadAfter (plans : List MovePlan) {node : Node} (hnode : node ∈ s.nodes) :
    (s.summaryAfter plans).minLoad ≤ s.loadAfter plans node :=
  LoadSummary.minLoad_le (List.mem_map_of_mem (f := s.loadAfter plans) hnode)

namespace Improves

theorem maxLoad_le (h : s.Improves plans plan) :
    (s.summaryAfter (plans ++ [plan])).maxLoad ≤ (s.summaryAfter plans).maxLoad := by
  have hne : s.nodes.map (s.loadAfter (plans ++ [plan])) ≠ [] :=
    List.ne_nil_of_mem (List.mem_map_of_mem h.source_mem)
  rw [summaryAfter, LoadSummary.maxLoad_le_iff hne, List.forall_mem_map]
  intro node hnode
  have hload := loadAfter_le_maxLoad plans hnode
  have hsource := loadAfter_le_maxLoad plans h.source_mem
  have hgap := h.gap
  rw [loadAfter_concat, shift]
  split_ifs with hs hd
  · omega
  · subst hd
    omega
  · exact hload

theorem le_minLoad (h : s.Improves plans plan) :
    (s.summaryAfter plans).minLoad ≤ (s.summaryAfter (plans ++ [plan])).minLoad := by
  have hne : s.nodes.map (s.loadAfter (plans ++ [plan])) ≠ [] :=
    List.ne_nil_of_mem (List.mem_map_of_mem h.source_mem)
  change _ ≤ (LoadSummary.ofLoads (s.nodes.map (s.loadAfter (plans ++ [plan])))).minLoad
  rw [LoadSummary.le_minLoad_iff hne, List.forall_mem_map]
  intro node hnode
  have hload := minLoad_le_loadAfter plans hnode
  have hdestination := minLoad_le_loadAfter plans h.destination_mem
  have hgap := h.gap
  rw [loadAfter_concat, shift]
  split_ifs with hs hd
  · subst hs
    omega
  · omega
  · exact hload

/-- Both ends come closer to each other by two, and all other loads stay. -/
theorem squares_lt (h : s.Improves plans plan) :
    s.squaresAfter (plans ++ [plan]) < s.squaresAfter plans := by
  have hterm : ∀ node, s.loadAfter (plans ++ [plan]) node ^ 2 = s.loadAfter plans node ^ 2 +
      ((if node = plan.source then 1 - 2 * s.loadAfter plans node else 0) +
        if node = plan.destination then 1 + 2 * s.loadAfter plans node else 0) := by
    intro node
    rw [loadAfter_concat, shift]
    by_cases hs : node = plan.source
    · have hd : node ≠ plan.destination := fun hd => plan.distinct (hs.symm.trans hd)
      rw [if_pos hs, if_pos hs, if_neg hd]
      ring
    · rw [if_neg hs, if_neg hs]
      split_ifs <;> ring
  have hgap := h.gap
  have hsource := (s.mem_members _).2 h.source_mem
  have hdestination := (s.mem_members _).2 h.destination_mem
  simp only [squaresAfter, sum_nodes, hterm, Finset.sum_add_distrib, Finset.sum_ite_eq', if_pos hsource,
    if_pos hdestination]
  omega

end Improves

/-! ## The moves of a planner -/

/-- A node that gives shards away does not aim lower than one that receives some: a node above the floor is
left out only when all raised nodes are at least as heavy. -/
theorem goal_le_goal {source destination : Node} (hsource : source ∈ s.nodes)
    (habove : s.goal source < s.count source) (hbelow : s.count destination < s.goal destination) :
    s.goal destination ≤ s.goal source := by
  unfold goal lifted at *
  by_cases hd : destination ∈ s.raised
  · by_cases hs : source ∈ s.raised
    · rw [if_pos hs, if_pos hd]
    · rw [if_neg hs] at habove
      rw [if_pos hd] at hbelow
      have hle := count_le_of_raised hd hsource hs habove
      omega
  · rw [if_neg hd]
    omega

theorem Reaches.improves {before rest : List MovePlan} (h : s.Reaches s.goal (before ++ plan :: rest)) :
    s.Improves before plan := by
  have hmem : plan ∈ before ++ plan :: rest := by simp
  have hsource := h.source_mem plan hmem
  have hdestination := h.destination_mem plan hmem
  have hleave := h.length_departures hsource
  have hcome := h.coming _ hdestination
  have habove := h.source_above hmem
  have hbelow := h.destination_below hmem
  -- The source receives nothing and the destination gives nothing, before this move or after it.
  have hreceived := h.coming _ hsource
  have hgiven := h.length_departures hdestination
  rw [departures_append, List.length_append, departures_cons, if_pos rfl, List.length_cons] at hleave
  rw [arrivals_append, List.length_append, arrivals_cons, if_pos rfl, List.length_cons] at hcome
  rw [arrivals_append, List.length_append] at hreceived
  rw [departures_append, List.length_append] at hgiven
  have hgoal := goal_le_goal hsource habove hbelow
  refine ⟨hsource, hdestination, ?_⟩
  rw [loadAfter, loadAfter, shiftAll_eq, shiftAll_eq]
  omega

/-- Moves each of which improves the loads that it finds never widen their range. -/
theorem range_narrows {before more : List MovePlan}
    (h : ∀ first plan rest, before ++ more = first ++ plan :: rest → s.Improves first plan) :
    (s.summaryAfter (before ++ more)).maxLoad ≤ (s.summaryAfter before).maxLoad ∧
      (s.summaryAfter before).minLoad ≤ (s.summaryAfter (before ++ more)).minLoad := by
  induction more generalizing before with
  | nil => simp
  | cons plan more ih =>
    have hstep := h before plan more rfl
    rw [List.append_cons] at h ⊢
    have hrest := ih h
    exact ⟨hrest.1.trans hstep.maxLoad_le, hstep.le_minLoad.trans hrest.2⟩

end Snapshot

namespace Planner

theorem balance_improves (p : Planner) (s : Snapshot) :
    (p.slop.isExact = true → ∃ plans, (p.balance s).result = .ok plans) ∧
    ∀ plans, (p.balance s).result = .ok plans →
      (∀ before plan rest, plans = before ++ plan :: rest →
        s.Improves before plan ∧ s.squaresAfter (before ++ [plan]) < s.squaresAfter before) ∧
      ∀ before after, before <+: after → after <+: plans →
        (s.summaryAfter after).maxLoad ≤ (s.summaryAfter before).maxLoad ∧
          (s.summaryAfter before).minLoad ≤ (s.summaryAfter after).minLoad := by
  refine ⟨fun hslop => p.exists_balance hslop s, fun plans hplans => ?_⟩
  have himproves : ∀ before plan rest, plans = before ++ plan :: rest → s.Improves before plan := by
    rintro before plan rest rfl
    rcases p.balance_outcome hplans with ⟨hnil, -⟩ | hreaches
    · simp at hnil
    · exact hreaches.improves
  refine ⟨?_, ?_⟩
  · intro before plan rest hsplit
    have h := himproves before plan rest hsplit
    exact ⟨h, h.squares_lt⟩
  · rintro before after ⟨more, rfl⟩ ⟨others, rfl⟩
    apply Snapshot.range_narrows
    intro first plan rest hsplit
    apply himproves first plan (rest ++ others)
    rw [hsplit, List.append_assoc, List.cons_append]

theorem balance_improves_lopsided :
    Planner.strict.slop.isExact = true ∧
      ∃ plan rest, (Planner.strict.balance .lopsided).result = .ok (plan :: rest) ∧
        Snapshot.lopsided.Improves [] plan ∧
        Snapshot.lopsided.squaresAfter [plan] < Snapshot.lopsided.squaresAfter [] ∧
        (Snapshot.lopsided.summaryAfter (plan :: rest)).maxLoad ≤
          (Snapshot.lopsided.summaryAfter []).maxLoad := by
  have hcount : (Planner.strict.balance .lopsided).result.map List.length = .ok 2 := by cbv
  obtain ⟨hanswers, hplanned⟩ := balance_improves .strict .lopsided
  obtain ⟨plans, hplans⟩ := hanswers strict_isExact
  obtain ⟨hmoves, hrange⟩ := hplanned plans hplans
  rw [hplans] at hcount
  cases plans with
  | nil => cases hcount
  | cons plan rest =>
    obtain ⟨himproves, hsquares⟩ := hmoves [] plan rest rfl
    have hmax := hrange [] (plan :: rest) List.nil_prefix (List.prefix_refl _)
    exact ⟨strict_isExact, plan, rest, hplans, himproves, hsquares, hmax.1⟩

end Planner
end Placement
