import Placement.Proofs.Pairing
import Placement.Proofs.Targets

/-!
# Moves that reach given loads

`Snapshot.Reaches` says of a list of moves that it takes every node of a snapshot to a given load: a node
above it gives away its first shards in their order, a node below it receives shards, and no node does both.
Such moves are found for all loads with the right sum (`Snapshot.exists_moves`), and on a well-formed
snapshot they can be replayed (`Snapshot.Reaches.exists_replay`) and lead where they should
(`Snapshot.Reaches.held_after`).
-/

namespace Placement
set_option autoImplicit false

namespace Snapshot
open MovePlan

def standingsFor (s : Snapshot) (goal : Node → Nat) : List Standing :=
  s.hosted.entries.map fun e => ⟨e.1, e.2.length, goal e.1, e.2⟩

structure Reaches (s : Snapshot) (goal : Node → Nat) (plans : List MovePlan) : Prop where
  leaving : ∀ node ∈ s.nodes, departures node plans = (s.held node).take (s.count node - goal node)
  coming : ∀ node ∈ s.nodes, (arrivals node plans).length = goal node - s.count node
  source_mem : ∀ plan ∈ plans, plan.source ∈ s.nodes
  destination_mem : ∀ plan ∈ plans, plan.destination ∈ s.nodes

/-! ## Standings -/

section
variable (s : Snapshot) (goal : Node → Nat)

theorem standings_eq : Planner.standings s = s.standingsFor s.goal := by
  apply List.map_congr_left
  intro e _
  have h := s.targets_of e.1
  unfold targets at h
  rw [h]

theorem standingsFor_nodes : (s.standingsFor goal).map Standing.node = s.hosted.keys := by
  rw [standingsFor, List.map_map]
  rfl

theorem standingsFor_nodup : ((s.standingsFor goal).map Standing.node).Nodup := by
  rw [standingsFor_nodes]
  exact s.hosted.keys_nodup

theorem sum_standingsFor (f : Standing → Nat) :
    ((s.standingsFor goal).map f).sum =
      ∑ node ∈ s.members, f ⟨node, s.count node, goal node, s.held node⟩ := by
  rw [standingsFor, List.map_map]
  exact s.sum_entries fun node shards => f ⟨node, shards.length, goal node, shards⟩

theorem sum_surplus :
    ((s.standingsFor goal).map Standing.surplus).sum = ∑ node ∈ s.members, (s.count node - goal node) := by
  rw [sum_standingsFor]
  apply Finset.sum_congr rfl
  intro node _
  simp only [Standing.surplus]
  omega

theorem sum_deficit :
    ((s.standingsFor goal).map Standing.deficit).sum = ∑ node ∈ s.members, (goal node - s.count node) := by
  rw [sum_standingsFor]
  apply Finset.sum_congr rfl
  intro node _
  simp only [Standing.deficit]
  omega

/-- Loads with the right sum are within reach. -/
theorem standingsFor_solvable (h : ∑ node ∈ s.members, goal node = s.totalLoad) :
    Planner.Solvable (s.standingsFor goal) where
  nodes_nodup := s.standingsFor_nodup goal
  stocked := by
    intro x hx
    obtain ⟨e, -, rfl⟩ := List.mem_map.1 hx
    simp only [Standing.surplus]
    omega
  even := by
    rw [sum_surplus, sum_deficit]
    have hboth : ∑ node ∈ s.members, ((s.count node - goal node) + goal node) =
        ∑ node ∈ s.members, ((goal node - s.count node) + s.count node) := by
      apply Finset.sum_congr rfl
      intro node _
      omega
    rw [Finset.sum_add_distrib, Finset.sum_add_distrib, h, ← totalLoad_eq_sum] at hboth
    omega

theorem exists_moves (loud : Bool) (h : ∑ node ∈ s.members, goal node = s.totalLoad) :
    ∃ plans, (Planner.movesFor loud (s.standingsFor goal)).result = .ok plans ∧ s.Reaches goal plans := by
  obtain ⟨plans, hplans, hsettles⟩ := Planner.movesFor_settles loud (s.standingsFor_solvable goal h)
  have hstanding : ∀ node ∈ s.nodes,
      (⟨node, s.count node, goal node, s.held node⟩ : Standing) ∈ s.standingsFor goal := by
    intro node hnode
    have he := (Table.get?_eq_some_iff _ _ _).1 (Table.get?_of_mem_keys ((s.mem_nodes_iff node).1 hnode))
    exact List.mem_map_of_mem (f := fun e => (⟨e.1, e.2.length, goal e.1, e.2⟩ : Standing)) he
  have hkeys := s.standingsFor_nodes goal
  refine ⟨plans, hplans, ?_, ?_, ?_, ?_⟩
  · intro node hnode
    have hleave := hsettles.leaving _ (hstanding node hnode)
    simp only [Standing.surplus] at hleave
    rw [hleave]
    congr 1
    omega
  · intro node hnode
    have hcome := hsettles.coming _ (hstanding node hnode)
    simp only [Standing.deficit] at hcome
    omega
  · intro plan hm
    rw [mem_nodes_iff, ← hkeys]
    exact hsettles.source_mem plan hm
  · intro plan hm
    rw [mem_nodes_iff, ← hkeys]
    exact hsettles.destination_mem plan hm

end

/-! ## What such moves do -/

namespace Reaches
variable {s after : Snapshot} {goal : Node → Nat} {plans : List MovePlan}

theorem length_departures (h : s.Reaches goal plans) {node : Node} (hnode : node ∈ s.nodes) :
    (departures node plans).length = s.count node - goal node := by
  rw [h.leaving node hnode, List.length_take, count]
  omega

theorem length_eq_sum (h : s.Reaches goal plans) :
    plans.length = ∑ node ∈ s.members, (s.count node - goal node) := by
  have hsources : ∀ plan ∈ plans, plan.source ∈ s.members :=
    fun plan hm => (s.mem_members _).2 (h.source_mem plan hm)
  rw [← sum_departures hsources]
  exact Finset.sum_congr rfl fun node hnode => h.length_departures ((s.mem_members node).1 hnode)

theorem countP_ends_eq (h : s.Reaches goal plans) {node : Node} (hnode : node ∈ s.nodes) :
    plans.countP (fun plan => plan.source = node ∨ plan.destination = node) =
      (s.count node - goal node) + (goal node - s.count node) := by
  rw [countP_ends, h.length_departures hnode, h.coming node hnode]

theorem source_above (h : s.Reaches goal plans) {plan : MovePlan} (hm : plan ∈ plans) :
    goal plan.source < s.count plan.source := by
  have hleave := shard_mem_departures hm
  have hlength := h.length_departures (h.source_mem plan hm)
  have hpos := List.length_pos_of_mem hleave
  omega

theorem destination_below (h : s.Reaches goal plans) {plan : MovePlan} (hm : plan ∈ plans) :
    s.count plan.destination < goal plan.destination := by
  have hcome := shard_mem_arrivals hm
  have hlength := h.coming _ (h.destination_mem plan hm)
  have hpos := List.length_pos_of_mem hcome
  omega

theorem source_ne_destination (h : s.Reaches goal plans) {a b : MovePlan} (ha : a ∈ plans)
    (hb : b ∈ plans) : a.source ≠ b.destination := by
  intro heq
  have habove := h.source_above ha
  have hbelow := h.destination_below hb
  rw [heq] at habove
  omega

theorem shard_mem_held (h : s.Reaches goal plans) {plan : MovePlan} (hm : plan ∈ plans) :
    plan.shard ∈ s.held plan.source := by
  have hleave := shard_mem_departures hm
  rw [h.leaving _ (h.source_mem plan hm)] at hleave
  exact List.mem_of_mem_take hleave

/-- No shard moves twice: all moves of a shard start at the one node that hosts it, and this node gives each
of its shards away at most once. -/
theorem shards_nodup (h : s.Reaches goal plans) (hs : s.WellFormed) :
    (plans.map MovePlan.shard).Nodup := by
  rw [List.nodup_iff_count_le_one]
  intro shard
  by_cases hmoved : shard ∈ plans.map MovePlan.shard
  · obtain ⟨plan, hm, rfl⟩ := List.mem_map.1 hmoved
    have hcount : (plans.map MovePlan.shard).count plan.shard =
        (departures plan.source plans).count plan.shard := by
      rw [departures, List.count_eq_countP, List.count_eq_countP, List.countP_map, List.countP_map,
        List.countP_filter]
      apply List.countP_congr
      intro other hother
      simp only [Function.comp_apply, beq_iff_eq, Bool.and_eq_true, decide_eq_true_eq, iff_self_and]
      intro hshard
      have hheld := h.shard_mem_held hother
      rw [hshard] at hheld
      exact hs.eq_of_mem_held hheld (h.shard_mem_held hm)
    rw [hcount, h.leaving _ (h.source_mem plan hm)]
    exact List.nodup_iff_count_le_one.1 ((hs.held_nodup _).sublist (List.take_sublist _ _)) _
  · rw [List.count_eq_zero_of_not_mem hmoved]
    exact Nat.zero_le 1

theorem exists_replay (h : s.Reaches goal plans) (hs : s.WellFormed) :
    ∃ after, s.replay plans = .ok after :=
  Snapshot.exists_replay hs (h.shards_nodup hs) h.destination_mem fun _ hm => h.shard_mem_held hm

/-- A node gives its first shards away or lists new ones behind its own. -/
theorem held_after (h : s.Reaches goal plans) (hreplay : s.replay plans = .ok after) {node : Node}
    (hnode : node ∈ s.nodes) :
    after.held node = (s.held node).drop (s.count node - goal node) ++ arrivals node plans := by
  have hleave := h.leaving node hnode
  have hcome := h.coming node hnode
  rw [held_of_replay hreplay hnode]
  rcases Nat.le_total (goal node) (s.count node) with hle | hle
  · have harrivals : arrivals node plans = [] := by
      apply List.eq_nil_of_length_eq_zero
      omega
    rw [carryAll_of_departures hleave harrivals, harrivals, List.append_nil]
  · rw [Nat.sub_eq_zero_of_le hle] at hleave ⊢
    rw [List.take_zero] at hleave
    rw [carryAll_of_arrivals hleave, List.drop_zero]

theorem count_after (h : s.Reaches goal plans) (hreplay : s.replay plans = .ok after) {node : Node}
    (hnode : node ∈ s.nodes) : after.count node = goal node := by
  have hcount := count_of_replay hreplay hnode
  rw [h.length_departures hnode, h.coming node hnode] at hcount
  omega

/-- The moves turn the list of every node into the one that it has in the end. -/
theorem turns (h : s.Reaches goal plans) (hreplay : s.replay plans = .ok after) {node : Node}
    (hnode : node ∈ s.nodes) : Turns plans node (s.held node) (after.held node) := by
  have hbefore : (s.held node).length = s.count node := rfl
  have hnow : (after.held node).length = goal node := h.count_after hreplay hnode
  have hleave := h.leaving node hnode
  have hcome := h.coming node hnode
  have hheld := h.held_after hreplay hnode
  constructor
  · rw [h.countP_ends_eq hnode, hbefore, hnow]
    omega
  · intro hsource
    obtain ⟨plan, hm, rfl⟩ := List.mem_map.1 hsource
    have habove := h.source_above hm
    have harrivals : arrivals plan.source plans = [] := by
      apply List.eq_nil_of_length_eq_zero
      omega
    rw [harrivals, List.append_nil] at hheld
    rw [hbefore, hnow]
    exact ⟨hleave, hheld⟩
  · intro hdestination
    obtain ⟨plan, hm, rfl⟩ := List.mem_map.1 hdestination
    have hbelow := h.destination_below hm
    rwa [Nat.sub_eq_zero_of_le hbelow.le, List.drop_zero] at hheld
  · intro hsource hdestination
    have hlength := h.length_departures hnode
    rw [departures_of_notMem hsource, List.length_nil] at hlength
    rwa [arrivals_of_notMem hdestination, List.append_nil, ← hlength, List.drop_zero] at hheld

end Reaches
end Snapshot
end Placement
