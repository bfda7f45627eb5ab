import Placement.Proofs.Identity
import Placement.Proofs.Table
import Placement.Snapshot

/-!
# Loads of a snapshot

`Snapshot.held` is the list of shards of a node and `Snapshot.count` its length.  The summary of a snapshot
is read in terms of these: `Snapshot.floorLoad` and `Snapshot.ceilLoad` are the average load rounded down
and up, and `Snapshot.isBalanced_summary_iff` says what the balance test decides.
-/

namespace Placement
set_option autoImplicit false

/-! ## Summaries of integers -/

attribute [ext] LoadSummary

namespace LoadSummary

theorem ofLoads_nodeCount (loads : List Int) : (ofLoads loads).nodeCount = loads.length := by
  cases loads with
  | nil => rfl
  | cons load loads => simp [ofLoads]

theorem ofLoads_shardCount (loads : List Int) : (ofLoads loads).shardCount = loads.sum := by
  cases loads with
  | nil => rfl
  | cons load loads =>
    rw [List.sum_eq_foldl, List.foldl_cons, Int.zero_add]
    rfl

theorem le_foldl_min_iff (a load : Int) (loads : List Int) :
    a ≤ loads.foldl min load ↔ a ≤ load ∧ ∀ x ∈ loads, a ≤ x := by
  induction loads generalizing load with
  | nil => simp
  | cons x xs ih => rw [List.foldl_cons, ih, le_min_iff, List.forall_mem_cons, and_assoc]

theorem foldl_max_le_iff (a load : Int) (loads : List Int) :
    loads.foldl max load ≤ a ↔ load ≤ a ∧ ∀ x ∈ loads, x ≤ a := by
  induction loads generalizing load with
  | nil => simp
  | cons x xs ih => rw [List.foldl_cons, ih, max_le_iff, List.forall_mem_cons, and_assoc]

theorem le_minLoad_iff {loads : List Int} (h : loads ≠ []) (a : Int) :
    a ≤ (ofLoads loads).minLoad ↔ ∀ x ∈ loads, a ≤ x := by
  cases loads with
  | nil => exact absurd rfl h
  | cons load loads => rw [List.forall_mem_cons]; exact le_foldl_min_iff a load loads

theorem maxLoad_le_iff {loads : List Int} (h : loads ≠ []) (a : Int) :
    (ofLoads loads).maxLoad ≤ a ↔ ∀ x ∈ loads, x ≤ a := by
  cases loads with
  | nil => exact absurd rfl h
  | cons load loads => rw [List.forall_mem_cons]; exact foldl_max_le_iff a load loads

theorem le_maxLoad {loads : List Int} {load : Int} (h : load ∈ loads) : load ≤ (ofLoads loads).maxLoad :=
  (maxLoad_le_iff (List.ne_nil_of_mem h) _).1 le_rfl load h

theorem minLoad_le {loads : List Int} {load : Int} (h : load ∈ loads) : (ofLoads loads).minLoad ≤ load :=
  (le_minLoad_iff (List.ne_nil_of_mem h) _).1 le_rfl load h

theorem ofLoads_eq_of_perm {loads others : List Int} (h : loads.Perm others) :
    ofLoads loads = ofLoads others := by
  by_cases hnil : others = []
  · rw [hnil, List.perm_nil] at h
    rw [h, hnil]
  · have hloads : loads ≠ [] := fun he => hnil (List.nil_perm.1 (he ▸ h))
    have hnode : (ofLoads loads).nodeCount = (ofLoads others).nodeCount := by
      rw [ofLoads_nodeCount, ofLoads_nodeCount, h.length_eq]
    have hshard : (ofLoads loads).shardCount = (ofLoads others).shardCount := by
      rw [ofLoads_shardCount, ofLoads_shardCount, h.sum_eq]
    have hmax : (ofLoads loads).maxLoad = (ofLoads others).maxLoad := eq_of_forall_ge_iff fun a => by
      rw [maxLoad_le_iff hloads, maxLoad_le_iff hnil]
      simp only [h.mem_iff]
    have hmin : (ofLoads loads).minLoad = (ofLoads others).minLoad := eq_of_forall_le_iff fun a => by
      rw [le_minLoad_iff hloads, le_minLoad_iff hnil]
      simp only [h.mem_iff]
    exact LoadSummary.ext hnode hshard hmax hmin

/-- The balance test looks at the extremes only, but it decides about every load. -/
theorem isBalanced_ofLoads_iff (loads : List Int) :
    (ofLoads loads).isBalanced = true ↔
      ∀ x ∈ loads, (ofLoads loads).floorAverage ≤ x ∧ x ≤ (ofLoads loads).ceilAverage := by
  by_cases h : loads = []
  · subst h
    simp [ofLoads, isBalanced, floorAverage, ceilAverage]
  · rw [isBalanced, Bool.and_eq_true, decide_eq_true_eq, decide_eq_true_eq, le_minLoad_iff h,
      maxLoad_le_iff h]
    exact ⟨fun hb x hx => ⟨hb.1 x hx, hb.2 x hx⟩, fun hb => ⟨fun x hx => (hb x hx).1, fun x hx => (hb x hx).2⟩⟩

end LoadSummary

namespace Snapshot

/-! ## Shards of a node -/

/-- The shards of a node, none for a node that is not listed. -/
def held (s : Snapshot) (node : Node) : List Shard := s.hosted.row node

def count (s : Snapshot) (node : Node) : Nat := (s.held node).length

theorem mem_nodes_iff (s : Snapshot) (node : Node) : node ∈ s.nodes ↔ node ∈ s.hosted.keys :=
  Ordered.mem_distinct node s.hosted.keys

theorem nodes_eq_iff (s t : Snapshot) : s.nodes = t.nodes ↔ ∀ node, node ∈ s.nodes ↔ node ∈ t.nodes := by
  constructor
  · intro h node
    rw [h]
  · intro h
    refine Ordered.distinct_eq (Ordered.distinct_pairwise _) fun node => ?_
    rw [← mem_nodes_iff, h node]

theorem nodes_nodup (s : Snapshot) : s.nodes.Nodup := Ordered.distinct_nodup s.hosted.keys

theorem nodes_perm (s : Snapshot) : s.nodes.Perm s.hosted.keys := Ordered.distinct_perm s.hosted.keys_nodup

theorem mem_nodes_of_mem_held {s : Snapshot} {node : Node} {shard : Shard} (h : shard ∈ s.held node) :
    node ∈ s.nodes := (s.mem_nodes_iff node).2 (Table.mem_keys_of_mem_row h)

theorem shardsOn_of_mem {s : Snapshot} {node : Node} (h : node ∈ s.nodes) :
    s.shardsOn node = .ok (s.held node) := by
  rw [shardsOn, Table.get?_of_mem_keys ((s.mem_nodes_iff node).1 h)]
  rfl

theorem shardsOn_of_notMem {s : Snapshot} {node : Node} (h : node ∉ s.nodes) :
    s.shardsOn node = .error (SnapshotError.unknownNode node).raised := by
  rw [mem_nodes_iff, ← Table.get?_eq_none_iff] at h
  rw [shardsOn, h]

theorem load_of_mem {s : Snapshot} {node : Node} (h : node ∈ s.nodes) :
    s.load node = .ok (s.count node) := by
  rw [load, shardsOn_of_mem h]
  rfl

theorem load_of_notMem {s : Snapshot} {node : Node} (h : node ∉ s.nodes) :
    s.load node = .error (SnapshotError.unknownNode node).raised := by
  rw [load, shardsOn_of_notMem h]
  rfl

def members (s : Snapshot) : Finset Node := s.nodes.toFinset

@[simp] theorem mem_members (s : Snapshot) (node : Node) : node ∈ s.members ↔ node ∈ s.nodes :=
  List.mem_toFinset

theorem sum_nodes {β : Type} [AddCommMonoid β] (s : Snapshot) (f : Node → β) :
    (s.nodes.map f).sum = ∑ node ∈ s.members, f node := (List.sum_toFinset f s.nodes_nodup).symm

theorem countP_nodes (s : Snapshot) (p : Node → Prop) [DecidablePred p] :
    s.nodes.countP p = (s.members.filter p).card := by
  rw [List.countP_eq_length_filter, ← List.toFinset_card_of_nodup (s.nodes_nodup.filter _)]
  congr 1
  ext node
  simp

theorem sum_entries {β : Type} [AddCommMonoid β] (s : Snapshot) (f : Node → List Shard → β) :
    (s.hosted.entries.map fun e => f e.1 e.2).sum = ∑ node ∈ s.members, f node (s.held node) := by
  have hrow : (s.hosted.entries.map fun e => f e.1 e.2) =
      s.hosted.keys.map fun node => f node (s.held node) := by
    rw [Table.keys, List.map_map]
    refine List.map_congr_left fun e he => ?_
    rw [Function.comp_apply, held, Table.row_of_mem_entries he]
  rw [hrow, ← sum_nodes]
  exact (s.nodes_perm.symm.map _).sum_eq

theorem totalLoad_eq_sum (s : Snapshot) : s.totalLoad = ∑ node ∈ s.members, s.count node := by
  rw [totalLoad, List.length_flatten, Table.values, List.map_map]
  exact s.sum_entries fun _ shards => shards.length

/-- A shard is counted on every node that lists it. -/
theorem count_values (s : Snapshot) (shard : Shard) :
    s.hosted.values.flatten.count shard = ∑ node ∈ s.members, (s.held node).count shard := by
  rw [List.count_flatten, Table.values, List.map_map]
  exact s.sum_entries fun _ shards => shards.count shard

theorem length_nodes (s : Snapshot) : s.nodes.length = s.nodeCount := by
  rw [s.nodes_perm.length_eq, Table.keys, List.length_map]
  rfl

theorem nodeCount_eq_card (s : Snapshot) : s.nodeCount = s.members.card := by
  rw [members, List.toFinset_card_of_nodup s.nodes_nodup, length_nodes]

/-! ## The average load -/

def floorLoad (s : Snapshot) : Nat := s.totalLoad / s.nodeCount

def ceilLoad (s : Snapshot) : Nat := (s.totalLoad + (s.nodeCount - 1)) / s.nodeCount

/-- How many shards are left over when every node has the floor. -/
def leftover (s : Snapshot) : Nat := s.totalLoad % s.nodeCount

theorem totalLoad_of_nodeCount_eq_zero {s : Snapshot} (h : s.nodeCount = 0) : s.totalLoad = 0 := by
  rw [nodeCount_eq_card, Finset.card_eq_zero] at h
  rw [totalLoad_eq_sum, h, Finset.sum_empty]

theorem floorLoad_mul_add_leftover (s : Snapshot) :
    s.nodeCount * s.floorLoad + s.leftover = s.totalLoad := Nat.div_add_mod _ _

theorem leftover_lt {s : Snapshot} (h : s.nodeCount ≠ 0) : s.leftover < s.nodeCount :=
  Nat.mod_lt _ (Nat.pos_of_ne_zero h)

theorem leftover_le (s : Snapshot) : s.leftover ≤ s.nodeCount := by
  by_cases h : s.nodeCount = 0
  · simp [leftover, totalLoad_of_nodeCount_eq_zero h]
  · exact (leftover_lt h).le

theorem ceilLoad_eq (s : Snapshot) : s.ceilLoad = s.floorLoad + if s.leftover = 0 then 0 else 1 := by
  by_cases h : s.nodeCount = 0
  · simp [ceilLoad, floorLoad, leftover, h, totalLoad_of_nodeCount_eq_zero h]
  · have hlt := leftover_lt h
    have hsum := s.floorLoad_mul_add_leftover
    rw [ceilLoad, Nat.div_eq_iff (Nat.pos_of_ne_zero h)]
    rw [Nat.mul_comm] at hsum
    split_ifs with hr
    · rw [Nat.add_zero]
      omega
    · rw [Nat.add_mul]
      omega

theorem ceilLoad_of_leftover {s : Snapshot} (h : s.leftover ≠ 0) : s.ceilLoad = s.floorLoad + 1 := by
  rw [ceilLoad_eq, if_neg h]

/-- The floor for all nodes but one more shard for some of them. -/
def lifted (s : Snapshot) (top : Finset Node) (node : Node) : Nat :=
  s.floorLoad + if node ∈ top then 1 else 0

theorem sum_lifted {s : Snapshot} {top : Finset Node} (h : top ⊆ s.members) :
    ∑ node ∈ s.members, s.lifted top node = s.nodeCount * s.floorLoad + top.card := by
  have hextra : ∑ node ∈ s.members, (if node ∈ top then 1 else 0) = top.card := by
    rw [Finset.sum_boole, Finset.filter_mem_eq_inter, Finset.inter_eq_right.2 h, Nat.cast_id]
  unfold lifted
  rw [Finset.sum_add_distrib, hextra, Finset.sum_const, smul_eq_mul, nodeCount_eq_card]

/-- Such loads make up the total when as many nodes are lifted as shards are left over. -/
theorem sum_lifted_eq_iff {s : Snapshot} {top : Finset Node} (h : top ⊆ s.members) :
    ∑ node ∈ s.members, s.lifted top node = s.totalLoad ↔ top.card = s.leftover := by
  have htotal := s.floorLoad_mul_add_leftover
  rw [sum_lifted h]
  omega

/-! ## The summary -/

theorem summary_nodeCount (s : Snapshot) : s.summary.nodeCount = s.nodeCount := by
  rw [summary, LoadSummary.ofLoads_nodeCount]
  simp [loads, Table.values, Table.mapValues, nodeCount, Table.size]

theorem summary_shardCount (s : Snapshot) : s.summary.shardCount = s.totalLoad := by
  rw [summary, LoadSummary.ofLoads_shardCount, totalLoad, List.length_flatten]
  simp [loads, Table.values, Table.mapValues, Function.comp_def, Nat.cast_list_sum]

theorem floorAverage_summary (s : Snapshot) : s.summary.floorAverage = s.floorLoad := by
  rw [LoadSummary.floorAverage, summary_nodeCount, summary_shardCount]
  split_ifs with h
  · have h' : s.nodeCount = 0 := by exact_mod_cast h
    simp [floorLoad, h']
  · rw [Int.fdiv_eq_ediv_of_nonneg _ (Int.natCast_nonneg _), floorLoad, Int.natCast_ediv]

theorem ceilAverage_summary (s : Snapshot) : s.summary.ceilAverage = s.ceilLoad := by
  rw [LoadSummary.ceilAverage, summary_nodeCount, summary_shardCount]
  split_ifs with h
  · have h' : s.nodeCount = 0 := by exact_mod_cast h
    simp [ceilLoad, h']
  · have hdvd : (s.nodeCount : Int) ∣ s.totalLoad ↔ s.leftover = 0 := by
      rw [Int.natCast_dvd_natCast, Nat.dvd_iff_mod_eq_zero, leftover]
    rw [Int.fdiv_eq_ediv_of_nonneg _ (Int.natCast_nonneg _), Int.neg_ediv, ceilLoad_eq, floorLoad,
      Int.sign_eq_one_of_pos (by omega)]
    simp only [hdvd]
    split_ifs <;> push_cast <;> omega

theorem loads_values (s : Snapshot) : s.loads.values = s.hosted.keys.map s.count := by
  simp only [loads, Table.values, Table.mapValues, Table.keys, List.map_map]
  apply List.map_congr_left
  intro e he
  simp only [Function.comp_apply, count, held, Table.row_of_mem_entries he]

theorem loads_values_perm (s : Snapshot) : s.loads.values.Perm (s.nodes.map s.count) := by
  rw [loads_values]
  exact s.nodes_perm.symm.map s.count

theorem isBalanced_summary_iff (s : Snapshot) :
    s.summary.isBalanced = true ↔
      ∀ node ∈ s.nodes, s.floorLoad ≤ s.count node ∧ s.count node ≤ s.ceilLoad := by
  have hfloor := floorAverage_summary s
  have hceil := ceilAverage_summary s
  rw [summary] at hfloor hceil ⊢
  rw [LoadSummary.isBalanced_ofLoads_iff, hfloor, hceil, loads_values]
  simp [mem_nodes_iff]

end Snapshot
end Placement
