import Placement.Proofs.Retained

/-!
# The order of a history

`Retain.assign` sees its nodes as a set (`Retain.assign_eq_of_mem_iff`).  When the entries of the history come in
another order, the shards that return are the same and so are their nodes.  The others may change places with each
other, but counts alone decide which node comes next, so every node has as many shards as before
(`Retain.assign_any_order`).
-/

namespace Placement
set_option autoImplicit false

namespace Retain
variable {previous reordered : Table Shard (Option Node)} {nodes members : List Node} {owner home : Node}
  {shard : Shard}

theorem assign_eq_of_mem_iff (hmem : ∀ node, node ∈ members ↔ node ∈ nodes) (previous : Table Shard (Option Node)) :
    assign previous members = assign previous nodes := by
  have hdistinct : Ordered.distinct members = Ordered.distinct nodes :=
    Ordered.distinct_eq (Ordered.distinct_pairwise nodes) fun node =>
      (Ordered.mem_distinct node nodes).trans (hmem node).symm
  rw [assign, assign, hdistinct]

namespace Outcome
variable {result result' : Table Node (List Shard)} {returned moved returned' moved' : List (Shard × Node)}

theorem mem_returned_iff (h : Outcome previous nodes result returned moved) (e : Shard × Node) :
    e ∈ returned ↔ ∃ owner, previous.get? e.1 = some (some owner) ∧ Home nodes owner e.2 :=
  ⟨h.returned_home e, fun ⟨_, howner, hhome⟩ => h.mem_returned howner hhome⟩

theorem returned_nodup (h : Outcome previous nodes result returned moved) : returned.Nodup :=
  List.Nodup.of_map Prod.fst h.returned_shards_nodup

theorem notMem_moved (h : Outcome previous nodes result returned moved)
    (howner : previous.get? shard = some (some owner)) (hhome : Home nodes owner home) :
    shard ∉ moved.map Prod.fst := by
  rw [h.moved_shards]
  intro hshard
  obtain ⟨e, he, rfl⟩ := List.mem_map.1 hshard
  obtain ⟨hentry, hgone⟩ := List.mem_filter.1 he
  rw [(previous.get?_eq_some_iff e.1 e.2).2 hentry, Option.some.injEq] at howner
  rw [howner, (returns_some_iff nodes owner).2 ⟨home, hhome.mem, hhome.address⟩] at hgone
  cases hgone

/-- A shard that returns is at home and nowhere else. -/
theorem mem_row_iff (h : Outcome previous nodes result returned moved)
    (howner : previous.get? shard = some (some owner)) (hhome : Home nodes owner home) (node : Node) :
    shard ∈ result.row node ↔ node = home := by
  constructor
  · intro hshard
    rcases List.mem_append.1 ((h.mem_row_iff_mem shard node).1 hshard) with hreturned | hmoved
    · obtain ⟨owner', howner', hhome'⟩ := h.returned_home _ hreturned
      rw [howner] at howner'
      cases howner'
      exact hhome'.unique hhome
    · exact absurd (List.mem_map_of_mem (f := Prod.fst) hmoved) (h.notMem_moved howner hhome)
  · rintro rfl
    exact h.mem_row_home howner hhome

theorem length_row (h : Outcome previous nodes result returned moved) (node : Node) :
    (result.row node).length = (returned.map Prod.snd).count node + (moved.map Prod.snd).count node := by
  rw [h.list_eq, List.length_map, ← List.countP_eq_length_filter, List.countP_append, List.count_eq_countP,
    List.count_eq_countP, List.countP_map, List.countP_map]
  rfl

/-! ## Two histories with the same entries -/

section
variable (h : Outcome previous nodes result returned moved) (h' : Outcome reordered nodes result' returned' moved')
  (hperm : reordered.entries.Perm previous.entries)
include h h' hperm

theorem returned_perm : returned'.Perm returned := by
  rw [List.perm_ext_iff_of_nodup h'.returned_nodup h.returned_nodup]
  intro e
  rw [h'.mem_returned_iff, h.mem_returned_iff]
  simp only [Table.get?_eq_some_iff, hperm.mem_iff]

theorem moved_nodes_eq : moved'.map Prod.snd = moved.map Prod.snd := by
  have hgreedy := h'.moved_greedy
  simp only [(h.returned_perm h' hperm).countP_eq] at hgreedy
  refine hgreedy.nodes_eq h.moved_greedy ?_
  have hshards := ((hperm.filter fun e => !returns nodes e.2).map Prod.fst).length_eq
  rw [← h'.moved_shards, ← h.moved_shards, List.length_map, List.length_map] at hshards
  exact hshards

theorem length_row_eq (node : Node) : (result'.row node).length = (result.row node).length := by
  rw [h'.length_row, h.length_row, ((h.returned_perm h' hperm).map Prod.snd).count_eq, h.moved_nodes_eq h' hperm]

end

end Outcome

theorem assign_any_order (previous : Table Shard (Option Node)) (nodes : List Node) :
    (∀ listed, (∀ node, node ∈ listed ↔ node ∈ nodes) → assign previous listed = assign previous nodes) ∧
    ∀ reordered : Table Shard (Option Node), reordered.entries.Perm previous.entries →
      (∀ node, ((assign reordered nodes).result.row node).length =
        ((assign previous nodes).result.row node).length) ∧
      ∀ shard owner, previous.get? shard = some (some owner) →
        (∃ node ∈ nodes, node.host = owner.host ∧ node.port = owner.port) →
        ∃ home, Home nodes owner home ∧ ∀ node,
          (shard ∈ (assign previous nodes).result.row node ↔ node = home) ∧
          (shard ∈ (assign reordered nodes).result.row node ↔ node = home) := by
  refine ⟨fun listed hmem => assign_eq_of_mem_iff hmem previous, fun reordered hperm => ?_⟩
  by_cases hne : nodes = []
  · subst hne
    refine ⟨fun node => by rw [assign_nil, assign_nil], ?_⟩
    rintro shard owner - ⟨node, hnode, -⟩
    cases hnode
  · obtain ⟨returned, moved, h⟩ := exists_outcome previous hne
    obtain ⟨returned', moved', h'⟩ := exists_outcome reordered hne
    refine ⟨h.length_row_eq h' hperm, ?_⟩
    rintro shard owner howner ⟨node, hnode, haddress⟩
    obtain ⟨home, hhome⟩ := exists_home ⟨node, hnode, (Node.address_eq_iff node owner).2 haddress⟩
    have howner' : reordered.get? shard = some (some owner) := by
      rw [Table.get?_eq_some_iff] at howner ⊢
      exact hperm.mem_iff.2 howner
    exact ⟨home, hhome, fun node => ⟨h.mem_row_iff howner hhome node, h'.mem_row_iff howner' hhome node⟩⟩

/-- The same owners as before, read from another list. -/
def rerecorded : Table Shard (Option Node) :=
  .ofList [(⟨"t", [], [], 3⟩, some (host "b")), (⟨"t", [], [], 2⟩, some (host "c")),
    (⟨"t", [], [], 1⟩, some (host "a")), (⟨"t", [], [], 0⟩, none)]

theorem assign_any_order_rerecorded :
    (∀ node, node ∈ relisted.dedup ↔ node ∈ relisted) ∧ rerecorded.entries.Perm recorded.entries ∧
      assign recorded relisted.dedup = assign recorded relisted ∧
      (∀ node, ((assign rerecorded relisted).result.row node).length =
        ((assign recorded relisted).result.row node).length) ∧
      ∀ node, ⟨"t", [], [], 1⟩ ∈ (assign rerecorded relisted).result.row node ↔
        node = { host "a" with startCode := 2 } := by
  have hmem (node : Node) : node ∈ relisted.dedup ↔ node ∈ relisted := List.mem_dedup
  have hperm : rerecorded.entries.Perm recorded.entries := by decide
  obtain ⟨hlisted, hreordered⟩ := assign_any_order recorded relisted
  obtain ⟨hlengths, hreturned⟩ := hreordered rerecorded hperm
  obtain ⟨home, hhome, hrows⟩ := hreturned ⟨"t", [], [], 1⟩ (host "a") (by decide) (by decide)
  have hrestarted : Home relisted (host "a") { host "a" with startCode := 2 } := ⟨by decide, rfl, by decide⟩
  refine ⟨hmem, hperm, hlisted _ hmem, hlengths, fun node => ?_⟩
  rw [← hhome.unique hrestarted]
  exact (hrows node).2

end Retain
end Placement
