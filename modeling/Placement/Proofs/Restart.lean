import Placement.Proofs.Retained

/-!
# Restarts

A placement with history can be read back as a history (`Retain.readBack`).  As long as every node comes back
at its address, no shard of it is without a home, so that placing the shards again finds the same lists in the
same order, whatever the start codes are (`Retain.assign_readBack`).
-/

namespace Placement
set_option autoImplicit false

namespace Retain
variable {nodes restarted : List Node} {counterpart : Node → Node}

/-- Every shard with the node that lists it. -/
def readBack (placed : Table Node (List Shard)) : Table Shard (Option Node) :=
  .ofList (placed.pairs.map fun e => (e.2, some e.1))

theorem entries_readBack {placed : Table Node (List Shard)} (h : placed.values.flatten.Nodup) :
    (readBack placed).entries = placed.pairs.map fun e => (e.2, some e.1) := by
  rw [← Table.values_pairs] at h
  apply Table.entries_ofList
  rwa [List.map_map]

theorem assign_of_orphans_nil {previous : Table Shard (Option Node)} (hne : nodes ≠ [])
    (h : orphans (Ordered.distinct nodes) previous = []) :
    (assign previous nodes).result =
      .grouped ((kept (Ordered.distinct nodes) previous).map fun e => (e.2, e.1)) := by
  obtain ⟨moved, hresult, hshards, -⟩ := exists_moved previous hne
  rw [h, List.map_eq_nil_iff] at hshards
  rw [hresult, hshards, List.append_nil]

theorem kept_readBack {members : List Node} {placed : Table Node (List Shard)} (hshards : placed.values.flatten.Nodup)
    (hhome : ∀ node ∈ placed.keys, Home members node (counterpart node)) :
    kept members (readBack placed) = (placed.pairs.map fun e => (e.2, counterpart e.1)) ∧
      orphans members (readBack placed) = [] := by
  have hfound : ∀ e ∈ placed.pairs, home? members (some e.1) = some (counterpart e.1) := by
    intro e he
    exact (home?_eq_some_iff members _ _).2 ⟨e.1, rfl, hhome e.1 (Table.mem_keys_of_mem_pairs he)⟩
  rw [kept, orphans, entries_readBack hshards]
  constructor
  · rw [List.filterMap_map, ← List.filterMap_eq_map]
    refine List.filterMap_congr fun e he => ?_
    rw [Function.comp_apply, hfound e he]
    rfl
  · rw [List.map_eq_nil_iff, List.filter_eq_nil_iff]
    intro entry hentry
    obtain ⟨e, he, rfl⟩ := List.mem_map.1 hentry
    rw [hfound e he]
    simp

theorem assign_readBack {placed : Table Node (List Shard)} (hne : restarted ≠ [])
    (hshards : placed.values.flatten.Nodup) (hlists : ∀ shards ∈ placed.values, shards ≠ [])
    (hhome : ∀ node ∈ placed.keys, Home restarted node (counterpart node))
    (hkeys : (placed.keys.map counterpart).Nodup) :
    (assign (readBack placed) restarted).result.entries =
      placed.entries.map fun e => (counterpart e.1, e.2) := by
  have hmembers : ∀ node ∈ placed.keys, Home (Ordered.distinct restarted) node (counterpart node) :=
    fun node hnode => (hhome node hnode).of_mem_iff fun node => (Ordered.mem_distinct node restarted).symm
  obtain ⟨hkept, horphans⟩ := kept_readBack hshards hmembers
  let renamed : Table Node (List Shard) :=
    ⟨placed.entries.map fun e => (counterpart e.1, e.2), by simpa [Table.keys, Function.comp_def] using hkeys⟩
  have hpairs : (placed.pairs.map fun e => (e.2, counterpart e.1)).map (fun e => (e.2, e.1)) = renamed.pairs := by
    simp [renamed, Table.pairs, List.map_flatMap, List.flatMap_map, Function.comp_def]
  have hrenamed : ∀ shards ∈ renamed.values, shards ≠ [] := by
    simpa [renamed, Table.values, Function.comp_def] using hlists
  rw [assign_of_orphans_nil hne horphans, hkept, hpairs, Table.grouped_pairs renamed hrenamed]

theorem assign_again (previous : Table Shard (Option Node)) (hne : nodes ≠ [])
    (haddress : ∀ a ∈ nodes, ∀ b ∈ nodes, a.address = b.address → a = b)
    (hhome : ∀ node ∈ nodes, Home restarted node (counterpart node)) :
    (assign (readBack (assign previous nodes).result) restarted).result.entries =
      (assign previous nodes).result.entries.map fun e => (counterpart e.1, e.2) := by
  obtain ⟨returned, moved, houtcome⟩ := exists_outcome previous hne
  have hshards := houtcome.complete.nodup_iff.2 previous.keys_nodup
  have hhome' := fun node hnode => hhome node (houtcome.node_mem node hnode)
  have hback : restarted ≠ [] := by
    obtain ⟨node, hnode⟩ := List.exists_mem_of_ne_nil nodes hne
    exact List.ne_nil_of_mem (hhome node hnode).mem
  -- Counterparts have different addresses, so no two lists are thrown together.
  have hkeys : ((assign previous nodes).result.keys.map counterpart).Nodup := by
    refine List.Nodup.map_on (fun a ha b hb heq => ?_) (assign previous nodes).result.keys_nodup
    apply haddress a (houtcome.node_mem a ha) b (houtcome.node_mem b hb)
    rw [← (hhome' a ha).address, heq, (hhome' b hb).address]
  exact assign_readBack hback hshards houtcome.list_ne_nil hhome' hkeys

/-- Where one node is at every address, `Retain.Home` leaves it no choice which one is the counterpart. -/
theorem assign_restarted (previous : Table Shard (Option Node)) (nodes : List Node) (hne : nodes ≠ [])
    (haddress : ∀ a ∈ nodes, ∀ b ∈ nodes, a.address = b.address → a = b) :
    (∀ restarted : List Node, (∀ node ∈ nodes, ∃ other ∈ restarted, other.address = node.address) →
      ∃ counterpart : Node → Node, (∀ node ∈ nodes, Home restarted node (counterpart node)) ∧
        (assign (readBack (assign previous nodes).result) restarted).result.entries =
          (assign previous nodes).result.entries.map fun e => (counterpart e.1, e.2)) ∧
    (assign (readBack (assign previous nodes).result) nodes).result = (assign previous nodes).result := by
  constructor
  · intro restarted hback
    obtain ⟨first, -⟩ := List.exists_mem_of_ne_nil nodes hne
    have : Nonempty Node := ⟨first⟩
    choose! counterpart hhome using fun node hnode => exists_home (hback node hnode)
    exact ⟨counterpart, hhome, assign_again previous hne haddress hhome⟩
  · have hhome : ∀ node ∈ nodes, Home nodes node (id node) := fun node hnode =>
      ⟨hnode, rfl, fun other hother h => (haddress other hother node hnode h) ▸ le_rfl⟩
    ext1
    exact (assign_again previous hne haddress hhome).trans (List.map_id _)

theorem assign_restarted_survivors :
    survivors ≠ [] ∧ (∀ a ∈ survivors, ∀ b ∈ survivors, a.address = b.address → a = b) ∧
      (assign (readBack (assign recorded survivors).result)
          [{ host "a" with startCode := 2 }, { host "b" with startCode := 3 }]).result.values =
        (assign recorded survivors).result.values ∧
      (assign (readBack (assign recorded survivors).result) survivors).result =
        (assign recorded survivors).result := by
  have hne : survivors ≠ [] := by decide
  have haddress : ∀ a ∈ survivors, ∀ b ∈ survivors, a.address = b.address → a = b := by decide
  obtain ⟨hrestart, hsame⟩ := assign_restarted recorded survivors hne haddress
  obtain ⟨counterpart, -, hentries⟩ :=
    hrestart [{ host "a" with startCode := 2 }, { host "b" with startCode := 3 }] (by decide)
  refine ⟨hne, haddress, ?_, hsame⟩
  rw [Table.values, hentries, List.map_map]
  rfl

end Retain
end Placement
