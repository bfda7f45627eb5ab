import Placement.Proofs.Balancing
import Placement.Proofs.ColdStart

/-!
# Dealing in turns

Shards that are dealt in turns stand in the lists of the nodes as on a grid: the one at position `i` is in row `i`
modulo the number of nodes and in column `i` divided by it (`Bulk.getElem?_row_dealt`).  So two nodes differ by
one shard at most, and loads that differ by no more are balanced whichever nodes are counted
(`Snapshot.isBalanced_of_near`).
-/

namespace Placement
set_option autoImplicit false

/-! ## Loads that differ by one -/

theorem Snapshot.isBalanced_of_near {s : Snapshot}
    (h : ∀ a ∈ s.nodes, ∀ b ∈ s.nodes, s.count a ≤ s.count b + 1) : s.summary.isBalanced = true := by
  rw [isBalanced_summary_iff]
  intro node hnode
  have hmem := (s.mem_members node).2 hnode
  have hpos : 0 < s.nodeCount := by
    rw [nodeCount_eq_card]
    exact Finset.card_pos.2 ⟨node, hmem⟩
  -- The node itself has one less than all may have, and one more than all must have.
  have htop : s.totalLoad < s.nodeCount * (s.count node + 1) := by
    rw [totalLoad_eq_sum, nodeCount_eq_card, ← smul_eq_mul, ← Finset.sum_const]
    exact Finset.sum_lt_sum (fun other hother => h other ((s.mem_members other).1 hother) node hnode)
      ⟨node, hmem, Nat.lt_succ_self _⟩
  have hbottom : s.nodeCount * s.count node < s.totalLoad + s.nodeCount := by
    rw [totalLoad_eq_sum, nodeCount_eq_card, ← smul_eq_mul, ← Finset.sum_const, Finset.card_eq_sum_ones,
      ← Finset.sum_add_distrib]
    exact Finset.sum_lt_sum (fun other hother => h node hnode other ((s.mem_members other).1 hother))
      ⟨node, hmem, Nat.lt_succ_self _⟩
  constructor
  · rw [floorLoad, ← Nat.lt_succ_iff, Nat.div_lt_iff_lt_mul hpos, Nat.mul_comm]
    exact htop
  · rw [ceilLoad, Nat.le_div_iff_mul_le hpos, Nat.mul_comm]
    omega

/-! ## The grid -/

namespace Bulk
variable {members : List Node} (hpos : 0 < members.length)

/-- The lists that the members have when all shards are dealt. -/
def dealt (shards : List Shard) : Table Node (List Shard) :=
  .grouped ((inTurns members hpos shards).map fun e => (e.2, e.1))

theorem dealt_concat (shards : List Shard) (shard : Shard) :
    dealt hpos (shards ++ [shard]) =
      (dealt hpos shards).push (LeastLoaded.onTurn members hpos shards.length) shard := by
  rw [dealt, inTurns, List.zipIdx_append, List.map_append, List.map_append]
  simp only [List.zipIdx_singleton, Nat.zero_add, List.map_singleton, Table.grouped_concat]
  rfl

section
variable (hnodup : members.Nodup) {r : Nat} (hr : r < members.length)
include hnodup

theorem eq_onTurn_iff (i : Nat) : members[r] = LeastLoaded.onTurn members hpos i ↔ r = i % members.length :=
  hnodup.getElem_inj_iff

theorem length_row_dealt (shards : List Shard) :
    ((dealt hpos shards).row members[r]).length =
      shards.length / members.length + if r < shards.length % members.length then 1 else 0 := by
  induction shards using List.reverseRecOn with
  | nil => simp [dealt, inTurns, Table.row_grouped]
  | append_singleton shards shard ih =>
    have hstep := LeastLoaded.div_mod_succ hpos shards.length
    rw [dealt_concat, Table.row_push, List.length_append, List.length_singleton]
    simp only [eq_onTurn_iff hpos hnodup hr]
    by_cases hturn : r = shards.length % members.length
    · rw [if_pos hturn, List.length_append, List.length_singleton, ih]
      split_ifs <;> omega
    · rw [if_neg hturn, ih]
      split_ifs <;> omega

theorem getElem?_row_dealt (shards : List Shard) (k : Nat) :
    ((dealt hpos shards).row members[r])[k]? = shards[k * members.length + r]? := by
  induction shards using List.reverseRecOn with
  | nil => simp [dealt, inTurns, Table.row_grouped]
  | append_singleton shards shard ih =>
    have hlength := length_row_dealt hpos hnodup hr shards
    have hsplit := Nat.div_add_mod' shards.length members.length
    rw [dealt_concat, Table.row_push]
    simp only [eq_onTurn_iff hpos hnodup hr]
    by_cases hturn : r = shards.length % members.length
    · rw [if_neg (by omega), Nat.add_zero] at hlength
      rw [← hturn, ← hlength] at hsplit
      rw [if_pos hturn]
      -- The new shard is the next one of its row.
      rcases Nat.lt_trichotomy k ((dealt hpos shards).row members[r]).length with hk | rfl | hk
      · have hindex : k * members.length + r < shards.length := by
          rw [← hsplit]
          gcongr
        rw [List.getElem?_append_left hk, List.getElem?_append_left hindex, ih]
      · rw [hsplit, List.getElem?_concat_length, List.getElem?_concat_length]
      · have hindex : shards.length < k * members.length + r := by
          rw [← hsplit]
          gcongr
        rw [List.getElem?_eq_none (by simpa using hk), List.getElem?_eq_none (by simpa using hindex)]
    · have hindex : k * members.length + r ≠ shards.length := by
        intro heq
        rw [← heq, Nat.mul_add_mod', Nat.mod_eq_of_lt hr] at hturn
        exact hturn rfl
      rw [if_neg hturn, ih]
      rcases Nat.lt_or_gt_of_ne hindex with hlt | hgt
      · rw [List.getElem?_append_left hlt]
      · rw [List.getElem?_eq_none hgt.le, List.getElem?_eq_none (by simpa using hgt)]

theorem keys_dealt (shards : List Shard) : (dealt hpos shards).keys = members.take shards.length := by
  induction shards using List.reverseRecOn with
  | nil => rfl
  | append_singleton shards shard ih =>
    rw [dealt_concat, Table.keys_push, ih, List.length_append, List.length_singleton]
    rcases Nat.lt_or_ge shards.length members.length with hlt | hge
    · have hturn : LeastLoaded.onTurn members hpos shards.length = members[shards.length] :=
        ((eq_onTurn_iff hpos hnodup hlt _).2 (Nat.mod_eq_of_lt hlt).symm).symm
      have hnew : members[shards.length] ∉ members.take shards.length := by
        rw [List.mem_take_iff_getElem]
        rintro ⟨j, hj, heq⟩
        have := hnodup.getElem_inj_iff.1 heq
        omega
      rw [hturn, if_neg hnew, List.take_concat_get' _ _ hlt]
    · have hall : LeastLoaded.onTurn members hpos shards.length ∈ members := List.get_mem _ _
      rw [List.take_of_length_le hge, if_pos hall, List.take_of_length_le (by omega)]

end

/-- A placement that goes through the members round after round. -/
structure InRounds (members : List Node) (shards : List Shard) (placed : Table Node (List Shard)) : Prop where
  keys : placed.keys = members.take shards.length
  place : ∀ i shard, shards[i]? = some shard → ∃ node, members[i % members.length]? = some node ∧
    (placed.row node)[i / members.length]? = some shard
  only : ∀ node k shard, (placed.row node)[k]? = some shard → ∃ j, members[j]? = some node ∧
    shards[k * members.length + j]? = some shard
  even : ∀ node ∈ members, (placed.row node).length = shards.length / members.length ∨
    (placed.row node).length = (shards.length + (members.length - 1)) / members.length

theorem inRounds_dealt (hnodup : members.Nodup) (shards : List Shard) :
    InRounds members shards (dealt hpos shards) where
  keys := keys_dealt hpos hnodup shards
  place := by
    intro i shard hshard
    have hr := Nat.mod_lt i hpos
    refine ⟨members[i % members.length], List.getElem?_eq_getElem hr, ?_⟩
    rw [getElem?_row_dealt hpos hnodup hr, Nat.div_add_mod', hshard]
  only := by
    intro node k shard hshard
    have hnode : node ∈ (dealt hpos shards).keys := Table.mem_keys_of_mem_row (List.mem_of_getElem? hshard)
    rw [keys_dealt hpos hnodup] at hnode
    obtain ⟨j, hj, rfl⟩ := List.getElem_of_mem (List.mem_of_mem_take hnode)
    rw [getElem?_row_dealt hpos hnodup hj] at hshard
    exact ⟨j, List.getElem?_eq_getElem hj, hshard⟩
  even := by
    intro node hnode
    obtain ⟨j, hj, rfl⟩ := List.getElem_of_mem hnode
    have hsplit := Nat.div_add_mod' shards.length members.length
    have hlt := Nat.mod_lt shards.length hpos
    rw [length_row_dealt hpos hnodup hj]
    split_ifs with hturn
    · refine .inr (Nat.div_eq_of_lt_le ?_ ?_).symm <;> simp only [Nat.add_mul, Nat.one_mul] <;> omega
    · exact .inl (Nat.add_zero _)

/-- No planner finds anything to move, on whichever of the members it looks. -/
theorem balance_dealt (hnodup : members.Nodup) (shards : List Shard) {s : Snapshot}
    (hnodes : ∀ node ∈ s.nodes, node ∈ members)
    (hheld : ∀ node ∈ s.nodes, s.held node = (dealt hpos shards).row node) (p : Planner) :
    (p.balance s).result = .ok [] := by
  refine p.balance_of_isBalanced (Snapshot.isBalanced_of_near fun a ha b hb => ?_)
  obtain ⟨i, hi, hai⟩ := List.getElem_of_mem (hnodes a ha)
  obtain ⟨j, hj, hbj⟩ := List.getElem_of_mem (hnodes b hb)
  rw [Snapshot.count, Snapshot.count, hheld a ha, hheld b hb, ← hai, ← hbj, length_row_dealt hpos hnodup hi,
    length_row_dealt hpos hnodup hj]
  split_ifs <;> omega

theorem assign_inRounds (shards : List Shard) (nodes members : List Node) (hsorted : members.Pairwise (· < ·))
    (hmem : ∀ node, node ∈ members ↔ node ∈ nodes) (hne : nodes ≠ []) :
    InRounds members shards (assign shards nodes).result ∧
      ∀ p : Planner, (p.balance ⟨(assign shards nodes).result⟩).result = .ok [] ∧
        ∀ s : Snapshot, s.nodes = members →
          (∀ node ∈ members, s.shardsOn node = .ok ((assign shards nodes).result.row node)) →
          (p.balance s).result = .ok [] := by
  obtain ⟨node, hnode⟩ := List.exists_mem_of_ne_nil nodes hne
  have hpos := List.length_pos_of_mem ((hmem node).2 hnode)
  have hnodup : members.Nodup := hsorted.imp ne_of_lt
  have hassign : (assign shards nodes).result = dealt hpos shards := assign_eq hsorted hpos hmem shards
  rw [hassign]
  refine ⟨inRounds_dealt hpos hnodup shards, fun p => ⟨?_, fun s hnodes hlists => ?_⟩⟩
  · refine balance_dealt hpos hnodup shards (fun node hnode => ?_) (fun _ _ => rfl) p
    rw [Snapshot.mem_nodes_iff] at hnode
    exact List.mem_of_mem_take (keys_dealt hpos hnodup shards ▸ hnode)
  · refine balance_dealt hpos hnodup shards (fun node hnode => hnodes ▸ hnode) (fun node hnode => ?_) p
    have hlist := hlists node (hnodes ▸ hnode)
    rw [Snapshot.shardsOn_of_mem hnode, Except.ok.injEq] at hlist
    exact hlist

/-- One shard twice, for three hosts of which one is listed twice. -/
theorem assign_inRounds_few :
    let hosts := [Retain.host "c", Retain.host "a", Retain.host "b", Retain.host "a"]
    let members := [Retain.host "a", Retain.host "b", Retain.host "c"]
    let shards : List Shard := [⟨"t", [], [], 0⟩, ⟨"t", [], [], 0⟩]
    members.Pairwise (· < ·) ∧ (∀ node, node ∈ members ↔ node ∈ hosts) ∧ hosts ≠ [] ∧
      (assign shards hosts).result.keys = [Retain.host "a", Retain.host "b"] ∧
      (Planner.strict.balance (.ofList [(Retain.host "a", [⟨"t", [], [], 0⟩]), (Retain.host "c", []),
        (Retain.host "b", [⟨"t", [], [], 0⟩])])).result = .ok [] := by
  intro hosts members shards
  have hsorted : members.Pairwise (· < ·) := by decide
  have hmem : ∀ node, node ∈ members ↔ node ∈ hosts := by
    intro node
    simp only [members, hosts, List.mem_cons, List.not_mem_nil]
    tauto
  have hne : hosts ≠ [] := by decide
  obtain ⟨hrounds, hbalance⟩ := assign_inRounds shards hosts members hsorted hmem hne
  refine ⟨hsorted, hmem, hne, hrounds.keys, (hbalance Planner.strict).2 _ rfl ?_⟩
  decide

end Bulk
end Placement
