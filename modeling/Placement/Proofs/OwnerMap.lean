import Placement.Proofs.Ownership

/-!
# Owner maps

A snapshot without shared shards and the map from its shards to their nodes say the same about who owns what.
`Snapshot.ofOwners` groups the shards of any such map by node, and no shard is listed twice by the outcome
(`Snapshot.ofOwners_wellFormed`).  The map knows no nodes without shards, so that the nodes are told apart from
it; with them it gives back every list as it was (`Snapshot.WellFormed.shardsOn_ofOwners_owners`).
-/

namespace Placement
set_option autoImplicit false

namespace Snapshot

/-! ## From owners to lists -/

section
variable (owners : Table Shard Node) (nodes : List Node)

theorem values_start : ∀ shards ∈ (Table.ofList (nodes.map fun node => (node, ([] : List Shard)))).values,
    shards = [] := by
  intro shards hshards
  obtain ⟨node, hpair⟩ := Table.mem_values_ofList hshards
  obtain ⟨_, -, he⟩ := List.mem_map.1 hpair
  cases he
  rfl

/-- A node lists what it owns, in the order of the map. -/
theorem held_ofOwners (node : Node) :
    (ofOwners owners nodes).held node = (owners.entries.filter fun e => e.2 = node).map Prod.fst := by
  rw [held, ofOwners, Table.row_pushAll, Table.row_eq_nil (values_start nodes), List.nil_append, List.filter_map,
    List.map_map]
  rfl

theorem mem_held_ofOwners_iff (shard : Shard) (node : Node) :
    shard ∈ (ofOwners owners nodes).held node ↔ owners.get? shard = some node := by
  simp [held_ofOwners, Table.get?_eq_some_iff]

theorem mem_nodes_ofOwners_iff (node : Node) :
    node ∈ (ofOwners owners nodes).nodes ↔ node ∈ nodes ∨ node ∈ owners.values := by
  rw [mem_nodes_iff, ofOwners, Table.mem_keys_pushAll_iff, Table.keys_ofList, List.mem_eraseDups, List.map_map,
    List.map_map]
  exact or_congr_left (by simp)

theorem shards_ofOwners : (ofOwners owners nodes).hosted.values.flatten.Perm owners.keys := by
  have hgrouped := Table.values_pushAll (Table.ofList (nodes.map fun node => (node, ([] : List Shard))))
    (owners.entries.map fun e => (e.2, e.1))
  rwa [List.flatten_eq_nil_iff.2 (values_start nodes), List.nil_append, List.map_map] at hgrouped

/-- The map has one node for every shard. -/
theorem ofOwners_wellFormed : (ofOwners owners nodes).WellFormed :=
  (shards_ofOwners owners nodes).nodup_iff.2 owners.keys_nodup

theorem ownerOf_ofOwners (shard : Shard) : (ofOwners owners nodes).ownerOf shard = owners.get? shard := by
  refine Option.ext fun node => ?_
  rw [(ofOwners_wellFormed owners nodes).ownerOf_eq_some_iff, mem_held_ofOwners_iff]

end

/-! ## From lists to owners and back -/

/-- Lists that are marked with distinct nodes and put together can be told apart again. -/
theorem filter_marked {nodes : List Node} (hnodup : nodes.Nodup) (lists : Node → List Shard) {node : Node}
    (hnode : node ∈ nodes) :
    ((nodes.flatMap fun n => (lists n).map fun shard => (shard, n)).filter fun e => e.2 = node).map Prod.fst =
      lists node := by
  induction nodes with
  | nil => cases hnode
  | cons first others ih =>
    rw [List.nodup_cons] at hnodup
    rw [List.flatMap_cons, List.filter_append, List.map_append]
    by_cases hfirst : first = node
    · subst hfirst
      have hothers : ((others.flatMap fun n => (lists n).map fun shard => (shard, n)).filter
          fun e => e.2 = first) = [] := by
        rw [List.filter_eq_nil_iff]
        rintro ⟨shard, n⟩ he
        obtain ⟨other, hother, hmarked⟩ := List.mem_flatMap.1 he
        obtain ⟨_, -, heq⟩ := List.mem_map.1 hmarked
        cases heq
        simp only [decide_eq_true_eq]
        rintro rfl
        exact hnodup.1 hother
      rw [hothers, List.map_nil, List.append_nil, List.filter_map, List.map_map]
      simp [Function.comp_def]
    · have hnone : (((lists first).map fun shard => (shard, first)).filter fun e => e.2 = node) = [] := by
        simp [hfirst]
      rw [hnone, List.map_nil, List.nil_append]
      exact ih hnodup.2 ((List.mem_cons.1 hnode).resolve_left (Ne.symm hfirst))

theorem WellFormed.entries_owners {s : Snapshot} (hs : s.WellFormed) :
    s.owners.entries = s.nodes.flatMap fun node => (s.held node).map fun shard => (shard, node) := by
  have hshards : (s.nodes.flatMap fun node => (s.held node).map fun shard => (shard, node)).map Prod.fst =
      s.nodes.flatMap s.held := by
    simp [List.map_flatMap, Function.comp_def]
  apply Table.entries_ofList
  refine hshards.symm ▸ List.nodup_flatMap.2 ⟨fun node _ => hs.held_nodup node, ?_⟩
  exact s.nodes_nodup.imp fun hne shard ha hb => hne (hs.eq_of_mem_held ha hb)

theorem mem_nodes_of_mem_owners {s : Snapshot} {node : Node} (h : node ∈ s.owners.values) : node ∈ s.nodes := by
  obtain ⟨e, he, rfl⟩ := List.mem_map.1 h
  exact mem_nodes_of_mem_held (mem_held_of_owner ((Table.get?_eq_some_iff _ e.1 e.2).2 he))

theorem nodes_ofOwners_owners (s : Snapshot) : (ofOwners s.owners s.nodes).nodes = s.nodes := by
  rw [nodes_eq_iff]
  intro node
  rw [mem_nodes_ofOwners_iff]
  exact or_iff_left_of_imp mem_nodes_of_mem_owners

theorem WellFormed.shardsOn_ofOwners_owners {s : Snapshot} (hs : s.WellFormed) (node : Node) :
    (ofOwners s.owners s.nodes).shardsOn node = s.shardsOn node := by
  have hnodes := s.nodes_ofOwners_owners
  by_cases hnode : node ∈ s.nodes
  · rw [shardsOn_of_mem hnode, shardsOn_of_mem (by rwa [hnodes]), held_ofOwners, hs.entries_owners,
      filter_marked s.nodes_nodup s.held hnode]
  · rw [shardsOn_of_notMem hnode, shardsOn_of_notMem (by rwa [hnodes])]

theorem WellFormed.same_iff_owners {s t : Snapshot} (hs : s.WellFormed) (ht : t.WellFormed) :
    s.same t = true ↔ s.nodes = t.nodes ∧ ∀ shard, s.owners.get? shard = t.owners.get? shard :=
  (same_iff_ownership hs ht).trans (ownership_eq_iff s t)

theorem ofOwners_inverse_owners :
    (∀ (owners : Table Shard Node) (nodes : List Node),
      (ofOwners owners nodes).WellFormed ∧
      (∀ node, node ∈ (ofOwners owners nodes).nodes ↔ node ∈ nodes ∨ node ∈ owners.values) ∧
      ∀ shard, (ofOwners owners nodes).owners.get? shard = owners.get? shard) ∧
    (∀ s : Snapshot, s.WellFormed →
      (ofOwners s.owners s.nodes).nodes = s.nodes ∧
      ∀ node, (ofOwners s.owners s.nodes).shardsOn node = s.shardsOn node) ∧
    ∀ s t : Snapshot, s.WellFormed → t.WellFormed →
      (s.same t = true ↔ s.nodes = t.nodes ∧ ∀ shard, s.owners.get? shard = t.owners.get? shard) := by
  refine ⟨fun owners nodes => ?_, fun s hs => ?_, fun s t hs ht => hs.same_iff_owners ht⟩
  · exact ⟨ofOwners_wellFormed owners nodes, mem_nodes_ofOwners_iff owners nodes,
      ownerOf_ofOwners owners nodes⟩
  · exact ⟨s.nodes_ofOwners_owners, hs.shardsOn_ofOwners_owners⟩

/-- The hosts of `staggered`, those with shards in another order of their lists. -/
def shuffled : Snapshot :=
  .ofList [(host "b", [⟨"t", [], [], 2⟩]), (host "c", []), (host "a", [⟨"t", [], [], 1⟩, ⟨"t", [], [], 0⟩])]

theorem ofOwners_inverse_owners_staggered :
    staggered.WellFormed ∧ shuffled.WellFormed ∧
      host "c" ∈ (ofOwners staggered.owners [host "c"]).nodes ∧
      (ofOwners staggered.owners staggered.nodes).shardsOn (host "a") =
        .ok [⟨"t", [], [], 0⟩, ⟨"t", [], [], 1⟩] ∧
      staggered.same shuffled = true ∧
      staggered.owners.get? ⟨"t", [], [], 1⟩ = shuffled.owners.get? ⟨"t", [], [], 1⟩ := by
  have hs : staggered.WellFormed := by decide
  have ht : shuffled.WellFormed := by decide
  have hsame : staggered.same shuffled = true := by decide
  obtain ⟨hfrom, hback, hequal⟩ := ofOwners_inverse_owners
  obtain ⟨-, hnodes, -⟩ := hfrom staggered.owners [host "c"]
  obtain ⟨-, hlists⟩ := hback staggered hs
  obtain ⟨-, howners⟩ := (hequal _ _ hs ht).1 hsame
  exact ⟨hs, ht, (hnodes _).2 (.inl (by decide)), (hlists (host "a")).trans rfl, hsame, howners _⟩

end Snapshot
end Placement
