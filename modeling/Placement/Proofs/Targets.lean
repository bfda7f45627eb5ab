import Placement.Planner
import Placement.Proofs.Loads

/-!
# Who is raised to the ceiling

`Snapshot.raised` is the set of the nodes whose target is the ceiling, as many as there are shards left over
(`Snapshot.card_raised`), and `Snapshot.goal` is the target of a node.  The order in which nodes are raised
comes down to two facts: a node above the floor that is not raised is no heavier than any raised one
(`Snapshot.count_le_of_raised`), and no node at the floor is raised while one below it is not
(`Snapshot.count_ne_floor_of_raised`).
-/

namespace Placement
set_option autoImplicit false

/-! ## The order of raising -/

namespace Targets

def Loaded.heavierKey (l : Loaded) : Int ×ₗ Node := toLex (-l.load, l.node)

def Loaded.lighterKey (l : Loaded) : Int ×ₗ Node := toLex (l.load, l.node)

theorem Loaded.heavierFirst_iff (a b : Loaded) : a.heavierFirst b = true ↔ a.heavierKey ≤ b.heavierKey := by
  simp [heavierFirst, heavierKey, Prod.Lex.le_iff]

theorem Loaded.lighterFirst_iff (a b : Loaded) : a.lighterFirst b = true ↔ a.lighterKey ≤ b.lighterKey := by
  simp [lighterFirst, lighterKey, Prod.Lex.le_iff]

theorem Loaded.heavierKey_injective : Function.Injective heavierKey := by
  rintro ⟨load, node⟩ ⟨load', node'⟩ h
  simpa [heavierKey] using h

theorem Loaded.lighterKey_injective : Function.Injective lighterKey := by
  rintro ⟨load, node⟩ ⟨load', node'⟩ h
  simpa [lighterKey] using h

theorem Loaded.load_le_of_heavierFirst {a b : Loaded} (h : a.heavierFirst b = true) : b.load ≤ a.load := by
  simp only [heavierFirst, Bool.or_eq_true, Bool.and_eq_true, decide_eq_true_eq] at h
  omega

/-- In whatever order the loads are given, the targets are the same. -/
theorem ofLoads_eq_of_perm {loads others : List Loaded} (h : loads.Perm others) (summary : LoadSummary) :
    ofLoads loads summary = ofLoads others summary := by
  have hheavy := Ordered.mergeSort_eq_of_perm Loaded.heavierFirst_iff Loaded.heavierKey_injective
    (h.filter fun l => decide (summary.ceilAverage ≤ l.load))
  have hlight := Ordered.mergeSort_eq_of_perm Loaded.lighterFirst_iff Loaded.lighterKey_injective
    (h.filter fun l => decide (l.load < summary.floorAverage))
  have hlevel := Ordered.mergeSort_eq_of_perm Loaded.lighterFirst_iff Loaded.lighterKey_injective
    (h.filter fun l => decide (l.load = summary.floorAverage))
  simp only [ofLoads, hheavy, hlight, hlevel]

def heavy (floor : Int) (loads : List Loaded) : List Loaded :=
  (loads.filter fun l => decide (floor + 1 ≤ l.load)).mergeSort Loaded.heavierFirst

def light (floor : Int) (loads : List Loaded) : List Loaded :=
  (loads.filter fun l => decide (l.load < floor)).mergeSort Loaded.lighterFirst

def level (floor : Int) (loads : List Loaded) : List Loaded :=
  (loads.filter fun l => decide (l.load = floor)).mergeSort Loaded.lighterFirst

theorem mem_heavy {floor : Int} {loads : List Loaded} {l : Loaded} (h : l ∈ heavy floor loads) :
    floor < l.load := by
  rw [heavy, List.mem_mergeSort, List.mem_filter, decide_eq_true_eq] at h
  omega

theorem mem_light {floor : Int} {loads : List Loaded} {l : Loaded} (h : l ∈ light floor loads) :
    l.load < floor := by
  rw [light, List.mem_mergeSort, List.mem_filter, decide_eq_true_eq] at h
  exact h.2

theorem mem_level {floor : Int} {loads : List Loaded} {l : Loaded} (h : l ∈ level floor loads) :
    l.load = floor := by
  rw [level, List.mem_mergeSort, List.mem_filter, decide_eq_true_eq] at h
  exact h.2

/-- All nodes in the order in which they are raised, when the ceiling is above the floor. -/
def ranked (floor : Int) (loads : List Loaded) : List Loaded :=
  heavy floor loads ++ light floor loads ++ level floor loads

theorem ranked_perm (floor : Int) (loads : List Loaded) : (ranked floor loads).Perm loads := by
  have hheavy := List.filter_append_perm (fun l : Loaded => decide (floor + 1 ≤ l.load)) loads
  have hlight := List.filter_append_perm (fun l : Loaded => decide (l.load < floor))
    (loads.filter fun l => !decide (floor + 1 ≤ l.load))
  rw [List.filter_filter, List.filter_filter] at hlight
  have h1 : (loads.filter fun l => decide (l.load < floor) && !decide (floor + 1 ≤ l.load)) =
      loads.filter fun l => decide (l.load < floor) := by
    apply List.filter_congr
    intro l _
    rw [Bool.eq_iff_iff]
    simp only [Bool.and_eq_true, Bool.not_eq_true', decide_eq_true_eq, decide_eq_false_iff_not]
    omega
  have h2 : (loads.filter fun l => !decide (l.load < floor) && !decide (floor + 1 ≤ l.load)) =
      loads.filter fun l => decide (l.load = floor) := by
    apply List.filter_congr
    intro l _
    rw [Bool.eq_iff_iff]
    simp only [Bool.and_eq_true, Bool.not_eq_true', decide_eq_true_eq, decide_eq_false_iff_not]
    omega
  rw [h1, h2] at hlight
  have hsorted := ((List.mergeSort_perm (loads.filter fun l => decide (floor + 1 ≤ l.load))
    Loaded.heavierFirst).append (List.mergeSort_perm (loads.filter fun l => decide (l.load < floor))
    Loaded.lighterFirst)).append (List.mergeSort_perm (loads.filter fun l => decide (l.load = floor))
    Loaded.lighterFirst)
  refine hsorted.trans ?_
  rw [List.append_assoc]
  exact (hlight.append_left _).trans hheavy

/-- What is known of a node that is raised before another one. -/
def Loaded.Precedes (floor : Int) (a b : Loaded) : Prop :=
  (floor < b.load → b.load ≤ a.load) ∧ (b.load < floor → a.load ≠ floor)

theorem ranked_pairwise (floor : Int) (loads : List Loaded) :
    (ranked floor loads).Pairwise (Loaded.Precedes floor) := by
  have hlater : ∀ a b : Loaded, floor < a.load → b.load ≤ floor → Loaded.Precedes floor a b := by
    intro a b ha hb
    constructor <;> intro <;> omega
  have hheavy : (heavy floor loads).Pairwise (Loaded.Precedes floor) := by
    apply (Ordered.mergeSort_pairwise Loaded.heavierFirst_iff _).imp_of_mem
    intro a b ha hb h
    have hb' : floor < b.load := mem_heavy hb
    exact ⟨fun _ => Loaded.load_le_of_heavierFirst h, fun hlt => by omega⟩
  have hlight : (light floor loads).Pairwise (Loaded.Precedes floor) := by
    apply List.pairwise_of_forall_mem_list
    intro a ha b hb
    have ha' := mem_light ha
    have hb' := mem_light hb
    constructor <;> intro <;> omega
  have hlevel : (level floor loads).Pairwise (Loaded.Precedes floor) := by
    apply List.pairwise_of_forall_mem_list
    intro a ha b hb
    have hb' := mem_level hb
    constructor <;> intro <;> omega
  unfold ranked
  rw [List.append_assoc, List.pairwise_append, List.pairwise_append]
  refine ⟨hheavy, ⟨hlight, hlevel, ?_⟩, ?_⟩
  · intro a ha b hb
    have ha' := mem_light ha
    have hb' := mem_level hb
    constructor <;> intro <;> omega
  · intro a ha b hb
    apply hlater a b (mem_heavy ha)
    rcases List.mem_append.1 hb with hb | hb
    · exact (mem_light hb).le
    · exact (mem_level hb).le

/-- Among the first nodes of the order and the ones behind them. -/
theorem precedes_of_take {floor : Int} {loads : List Loaded} {k : Nat} {a b : Loaded}
    (ha : a ∈ (ranked floor loads).take k) (hb : b ∈ (ranked floor loads).drop k) :
    Loaded.Precedes floor a b := by
  have h := ranked_pairwise floor loads
  rw [← List.take_append_drop k (ranked floor loads), List.pairwise_append] at h
  exact h.2.2 a ha b hb

end Targets

/-! ## Targets of a snapshot -/

namespace Snapshot
open Targets

def targets (s : Snapshot) : Targets :=
  .ofLoads (s.hosted.entries.map fun e => ⟨e.2.length, e.1⟩) s.summary

def loaded (s : Snapshot) : List Loaded := s.hosted.entries.map fun e => ⟨e.2.length, e.1⟩

/-- The nodes whose target is the ceiling, when the ceiling is above the floor. -/
def raised (s : Snapshot) : Finset Node := s.targets.raised.toFinset

def goal (s : Snapshot) : Node → Nat := s.lifted s.raised

theorem mem_loaded_iff (s : Snapshot) (l : Loaded) :
    l ∈ s.loaded ↔ l.node ∈ s.nodes ∧ l.load = s.count l.node := by
  rw [mem_nodes_iff]
  constructor
  · intro h
    obtain ⟨e, he, rfl⟩ := List.mem_map.1 h
    refine ⟨List.mem_map_of_mem he, ?_⟩
    rw [count, held, Table.row_of_mem_entries he]
  · rintro ⟨hnode, hload⟩
    have he := (Table.get?_eq_some_iff _ _ _).1 (Table.get?_of_mem_keys hnode)
    refine List.mem_map.2 ⟨_, he, ?_⟩
    cases l
    simp only at hload
    rw [hload]
    rfl

theorem slots_eq (s : Snapshot) :
    (s.summary.shardCount - s.summary.floorAverage * s.summary.nodeCount).toNat = s.leftover := by
  have h := s.floorLoad_mul_add_leftover
  rw [summary_shardCount, floorAverage_summary, summary_nodeCount, ← Nat.cast_mul, Nat.mul_comm]
  omega

theorem raised_of_leftover_eq_zero {s : Snapshot} (h : s.leftover = 0) : s.raised = ∅ := by
  have hraised : s.targets.raised = [] := by
    change List.take _ _ = _
    rw [slots_eq, h, List.take_zero]
  rw [raised, hraised, List.toFinset_nil]

theorem targets_raised {s : Snapshot} (h : s.leftover ≠ 0) :
    s.targets.raised = ((ranked s.floorLoad s.loaded).take s.leftover).map Loaded.node := by
  have hceil : s.summary.ceilAverage = s.floorLoad + 1 := by
    rw [ceilAverage_summary, ceilLoad_of_leftover h]
    rfl
  rw [List.map_take, ← slots_eq]
  simp only [targets, ofLoads, ranked, heavy, light, level, floorAverage_summary, hceil]
  rfl

theorem ranked_nodes_perm (s : Snapshot) :
    ((ranked s.floorLoad s.loaded).map Loaded.node).Perm s.nodes := by
  have h := (ranked_perm s.floorLoad s.loaded).map Loaded.node
  have hnodes : s.loaded.map Loaded.node = s.hosted.keys := by
    rw [loaded, List.map_map]
    rfl
  rw [hnodes] at h
  exact h.trans s.nodes_perm.symm

theorem card_raised (s : Snapshot) : s.raised.card = s.leftover := by
  by_cases h : s.leftover = 0
  · rw [raised_of_leftover_eq_zero h, h, Finset.card_empty]
  · have hnodup := s.ranked_nodes_perm.nodup_iff.2 s.nodes_nodup
    have hlength := s.ranked_nodes_perm.length_eq
    rw [length_nodes] at hlength
    rw [raised, targets_raised h, List.map_take,
      List.toFinset_card_of_nodup (hnodup.sublist (List.take_sublist _ _)), List.length_take, hlength]
    exact min_eq_left s.leftover_le

theorem raised_subset (s : Snapshot) : s.raised ⊆ s.members := by
  by_cases h : s.leftover = 0
  · rw [raised_of_leftover_eq_zero h]
    exact Finset.empty_subset _
  · intro node hnode
    rw [raised, targets_raised h, List.map_take, List.mem_toFinset] at hnode
    rw [mem_members]
    exact s.ranked_nodes_perm.mem_iff.1 (List.mem_of_mem_take hnode)

theorem precedes_of_raised {s : Snapshot} {node other : Node} (hnode : node ∈ s.raised)
    (hother : other ∈ s.nodes) (hnot : other ∉ s.raised) :
    Loaded.Precedes s.floorLoad ⟨s.count node, node⟩ ⟨s.count other, other⟩ := by
  have h : s.leftover ≠ 0 := fun h => by simp [raised_of_leftover_eq_zero h] at hnode
  rw [raised, targets_raised h, List.mem_toFinset] at hnode hnot
  obtain ⟨l, hl, rfl⟩ := List.mem_map.1 hnode
  have hmem := (ranked_perm s.floorLoad s.loaded).mem_iff.1 (List.mem_of_mem_take hl)
  have hload := ((s.mem_loaded_iff l).1 hmem).2
  have hl' : l = ⟨s.count l.node, l.node⟩ := by rw [← hload]
  have hranked : (⟨s.count other, other⟩ : Loaded) ∈ ranked s.floorLoad s.loaded :=
    (ranked_perm s.floorLoad s.loaded).mem_iff.2 ((s.mem_loaded_iff _).2 ⟨hother, rfl⟩)
  rw [← List.take_append_drop s.leftover (ranked s.floorLoad s.loaded), List.mem_append] at hranked
  rcases hranked with htake | hdrop
  · exact absurd (List.mem_map_of_mem htake) hnot
  · rw [← hl']
    exact precedes_of_take hl hdrop

theorem count_le_of_raised {s : Snapshot} {node other : Node} (hnode : node ∈ s.raised)
    (hother : other ∈ s.nodes) (hnot : other ∉ s.raised) (hheavy : s.floorLoad < s.count other) :
    s.count other ≤ s.count node := by
  have h := (precedes_of_raised hnode hother hnot).1
  simp only at h
  omega

theorem count_ne_floor_of_raised {s : Snapshot} {node other : Node} (hnode : node ∈ s.raised)
    (hother : other ∈ s.nodes) (hnot : other ∉ s.raised) (hlight : s.count other < s.floorLoad) :
    s.count node ≠ s.floorLoad := by
  have h := (precedes_of_raised hnode hother hnot).2
  simp only at h
  omega

theorem targets_of (s : Snapshot) (node : Node) : s.targets.of node = s.goal node := by
  have hfloor : s.targets.floor = s.floorLoad := floorAverage_summary s
  have hceil : s.targets.ceiling = s.ceilLoad := ceilAverage_summary s
  have hmem : node ∈ s.targets.raised ↔ node ∈ s.raised := List.mem_toFinset.symm
  rw [Targets.of, goal, lifted, hfloor, hceil]
  by_cases h : node ∈ s.raised
  · have hne : s.leftover ≠ 0 := fun h0 => by simp [raised_of_leftover_eq_zero h0] at h
    rw [if_pos (hmem.2 h), if_pos h, ceilLoad_of_leftover hne]
  · rw [if_neg (mt hmem.1 h), if_neg h, Nat.add_zero]

end Snapshot
end Placement
