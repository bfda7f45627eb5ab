import Placement.Proofs.Balancing
import Placement.Proofs.ColdStart
import Placement.Proofs.OwnerMap

/-!
# Failover

Shards that have lost their nodes are placed on the survivors, their new owners replace those that a snapshot
knows (`Snapshot.recovered`), and the nodes with some newcomers are balanced.  Whatever the snapshot looks like,
even when it lists shards on several nodes, every shard is on one node in the end and the loads are even
(`Snapshot.failover_balances`).
-/

namespace Placement
set_option autoImplicit false

theorem Immediate.mem_keys_assign_iff {nodes : List Node} (hne : nodes ≠ []) (shards : List Shard) (shard : Shard) :
    shard ∈ (Immediate.assign shards nodes).result.keys ↔ shard ∈ shards := by
  have hmem := fun node => Ordered.mem_distinct node nodes
  obtain ⟨node, hnode⟩ := List.exists_mem_of_ne_nil nodes hne
  have hpos := List.length_pos_of_mem ((hmem node).2 hnode)
  rw [Immediate.assign_eq (Ordered.distinct_pairwise nodes) hpos hmem, Table.keys_ofList, inTurns_shards,
    List.mem_eraseDups]

/-- Without tolerance the moves of a planner end in even loads. -/
theorem Planner.exists_even {p : Planner} {s : Snapshot} (hslop : p.slop.isZero = true) (hs : s.WellFormed) :
    ∃ plans after, (p.balance s).result = .ok plans ∧ s.replay plans = .ok after ∧ after.IsEvenFor s := by
  obtain ⟨plans, hplans⟩ := p.exists_balance (Slop.isExact_of_isZero hslop) s
  obtain ⟨rfl, hbalanced⟩ | hreaches := p.balance_outcome hplans
  · exact ⟨[], s, hplans, s.replay_nil, (Snapshot.isBalanced_iff_isEvenFor s.replay_nil).1 (hbalanced hslop)⟩
  · obtain ⟨after, hafter⟩ := hreaches.exists_replay hs
    exact ⟨plans, after, hplans, hafter, hreaches.isEvenFor s.card_raised hafter⟩

namespace Snapshot

theorem mem_keys_owners_iff (s : Snapshot) (shard : Shard) :
    shard ∈ s.owners.keys ↔ shard ∈ s.hosted.values.flatten := by
  rw [Table.mem_keys_iff, Table.mem_flatten_values_iff]
  exact ⟨fun ⟨node, h⟩ => ⟨node, mem_held_of_owner h⟩, fun ⟨_, h⟩ => exists_owner h⟩

/-- The owners when shards have been placed on survivors; the new owner of a shard wins. -/
def recovered (s : Snapshot) (shards : List Shard) (survivors : List Node) : Table Shard Node :=
  s.owners.merge (Immediate.assign shards survivors).result

theorem mem_keys_recovered_iff (s : Snapshot) (shards : List Shard) {survivors : List Node} (hne : survivors ≠ [])
    (shard : Shard) :
    shard ∈ (s.recovered shards survivors).keys ↔ shard ∈ s.hosted.values.flatten ∨ shard ∈ shards := by
  rw [recovered, Table.mem_keys_merge_iff, mem_keys_owners_iff, Immediate.mem_keys_assign_iff hne]

theorem failover_balances (s : Snapshot) (shards : List Shard) (survivors newcomers : List Node) (p : Planner)
    (hne : survivors ≠ []) (hslop : p.slop.isZero = true) :
    ∃ plans final,
      (p.balance (ofOwners (s.recovered shards survivors) (survivors ++ newcomers))).result = .ok plans ∧
      ((ofOwners (s.recovered shards survivors) (survivors ++ newcomers)).apply plans).result = .ok final ∧
      final.WellFormed ∧
      (∀ shard, shard ∈ final.hosted.values.flatten ↔ shard ∈ s.hosted.values.flatten ∨ shard ∈ shards) ∧
      (∀ node, node ∈ final.nodes ↔
        node ∈ survivors ∨ node ∈ newcomers ∨ node ∈ (s.recovered shards survivors).values) ∧
      final.IsEvenFor final := by
  have hmerged := ofOwners_wellFormed (s.recovered shards survivors) (survivors ++ newcomers)
  obtain ⟨plans, final, hplans, hfinal, heven⟩ := Planner.exists_even hslop hmerged
  refine ⟨plans, final, hplans, (apply_result _ plans).trans hfinal, hmerged.of_replay hfinal, fun shard => ?_,
    fun node => ?_, ?_⟩
  · have hshards := (shards_perm_of_replay hfinal).trans (shards_ofOwners _ _)
    rw [hshards.mem_iff, mem_keys_recovered_iff s shards hne]
  · rw [nodes_of_replay hfinal, mem_nodes_ofOwners_iff, List.mem_append, or_assoc]
  · rw [← isBalanced_iff_isEvenFor final.replay_nil]
    exact (isBalanced_iff_isEvenFor hfinal).2 heven

/-- Two hosts, one shard of which is listed by both. -/
def overlapping : Snapshot :=
  .ofList [(host "a", [⟨"t", [], [], 0⟩, ⟨"t", [], [], 1⟩]), (host "b", [⟨"t", [], [], 1⟩, ⟨"t", [], [], 2⟩])]

theorem failover_balances_overlapping :
    [host "b"] ≠ [] ∧ Planner.strict.slop.isZero = true ∧ ¬ overlapping.WellFormed ∧
      ∃ plans final,
        ((ofOwners (overlapping.recovered [⟨"t", [], [], 0⟩, ⟨"t", [], [], 3⟩] [host "b"])
          ([host "b"] ++ [host "c"])).apply plans).result = .ok final ∧
        final.WellFormed ∧ ⟨"t", [], [], 1⟩ ∈ final.hosted.values.flatten ∧
        ⟨"t", [], [], 3⟩ ∈ final.hosted.values.flatten ∧ host "c" ∈ final.nodes ∧ final.IsEvenFor final := by
  have hne : [host "b"] ≠ [] := by decide
  have hslop : Planner.strict.slop.isZero = true := rfl
  obtain ⟨plans, final, -, hfinal, hwell, hshards, hnodes, heven⟩ := failover_balances overlapping
    [⟨"t", [], [], 0⟩, ⟨"t", [], [], 3⟩] [host "b"] [host "c"] Planner.strict hne hslop
  exact ⟨hne, hslop, by decide, plans, final, hfinal, hwell, (hshards _).2 (.inl (by decide)),
    (hshards _).2 (.inr (by decide)), (hnodes _).2 (.inr (.inl (by decide))), heven⟩

end Snapshot
end Placement
