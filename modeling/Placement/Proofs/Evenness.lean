import Placement.Proofs.ColdStart
import Placement.Proofs.Loads

/-!
# Even counts

Whoever is given a shard under the least loaded rule was no heavier than the others then, so in the end it is
ahead of none by more than one (`LeastLoaded.Greedy.running_le`).  As the counts of all nodes have the same sum
however the shards are spread, no other way to spread them has a lower maximum or a higher minimum.
`LeastLoaded.place` writes such a placement down over assignments from before (`LeastLoaded.place_even`).
-/

namespace Placement
set_option autoImplicit false

namespace LeastLoaded

/-! ## Counts in the end -/

section
variable {nodes : List Node} {start : Node → Int} {placed more : List (Shard × Node)} {e : Shard × Node}
  {node other : Node}

theorem running_concat (start : Node → Int) (placed : List (Shard × Node)) (e : Shard × Node) (node : Node) :
    running start (placed ++ [e]) node = running start placed node + if e.2 = node then 1 else 0 := by
  rw [running, running, List.countP_append, List.countP_singleton]
  by_cases h : e.2 = node
  · rw [if_pos h, if_pos (decide_eq_true h)]
    push_cast
    ring
  · simp [h]

theorem running_of_notMem (h : node ∉ placed.map Prod.snd) : running start placed node = start node := by
  have hnone : placed.countP (fun e => e.2 = node) = 0 := by
    rw [List.countP_eq_zero]
    intro e he hnode
    exact h (of_decide_eq_true hnode ▸ List.mem_map_of_mem he)
  rw [running, hnone, Nat.cast_zero, Int.add_zero]

theorem Greedy.init (h : Greedy nodes start (placed ++ more)) : Greedy nodes start placed := by
  rintro earlier shard node later rfl
  exact h earlier shard node (later ++ more) (by simp)

theorem Greedy.last (h : Greedy nodes start (placed ++ [e])) : Least nodes (running start placed) e.2 :=
  h placed e.1 e.2 [] rfl

/-- A node that was given a shard is ahead of none by more than one. -/
theorem Greedy.running_le (h : Greedy nodes start placed) (he : e ∈ placed) (hother : other ∈ nodes) :
    running start placed e.2 ≤ running start placed other + 1 := by
  induction placed using List.reverseRecOn with
  | nil => simp at he
  | append_singleton placed last ih =>
    have hleast := h.last.load_le hother
    rw [running_concat, running_concat]
    by_cases hlast : last.2 = e.2
    · rw [hlast] at hleast
      split_ifs <;> omega
    · have hmem : e ∈ placed := by
        rcases List.mem_append.1 he with hmem | hmem
        · exact hmem
        · exact absurd (congrArg Prod.snd (List.mem_singleton.1 hmem)).symm hlast
      have hbefore := ih h.init hmem
      split_ifs <;> omega

theorem sum_running (hnodes : ∀ e ∈ placed, e.2 ∈ nodes) :
    ∑ node ∈ nodes.toFinset, running start placed node =
      ∑ node ∈ nodes.toFinset, start node + placed.length := by
  induction placed using List.reverseRecOn with
  | nil => simp [running_nil]
  | append_singleton placed last ih =>
    have hlast : last.2 ∈ nodes.toFinset := List.mem_toFinset.2 (hnodes last (by simp))
    simp only [running_concat, Finset.sum_add_distrib, Finset.sum_ite_eq, if_pos hlast]
    rw [ih fun e he => hnodes e (List.mem_append_left _ he), List.length_append, List.length_singleton]
    push_cast
    ring

/-! ## Other ways to spread as many shards -/

section
variable {added : Node → Nat}

theorem Greedy.sum_eq (h : Greedy nodes start placed)
    (hadded : ∑ node ∈ nodes.toFinset, added node = placed.length) :
    ∑ node ∈ nodes.toFinset, running start placed node =
      ∑ node ∈ nodes.toFinset, (start node + (added node : Int)) := by
  rw [sum_running fun e he => h.mem he, Finset.sum_add_distrib, ← hadded, Nat.cast_sum]

/-- Somewhere there are as many. -/
theorem Greedy.exists_ge (h : Greedy nodes start placed)
    (hadded : ∑ node ∈ nodes.toFinset, added node = placed.length) (hnode : node ∈ nodes) :
    ∃ other ∈ nodes, running start placed node ≤ start other + added other := by
  by_contra hnone
  push Not at hnone
  -- Otherwise the node was given a shard, and then no node at all would have less than it is to have.
  have hgiven : node ∈ placed.map Prod.snd := by
    by_contra hnot
    have hless := hnone node hnode
    rw [running_of_notMem hnot] at hless
    omega
  obtain ⟨e, he, rfl⟩ := List.mem_map.1 hgiven
  refine (h.sum_eq hadded).not_gt (Finset.sum_lt_sum (fun other hother => ?_) ?_)
  · have hless := hnone other (List.mem_toFinset.1 hother)
    have hbehind := h.running_le he (List.mem_toFinset.1 hother)
    omega
  · exact ⟨e.2, List.mem_toFinset.2 hnode, hnone e.2 hnode⟩

/-- Somewhere there are as few. -/
theorem Greedy.exists_le (h : Greedy nodes start placed)
    (hadded : ∑ node ∈ nodes.toFinset, added node = placed.length) (hnode : node ∈ nodes) :
    ∃ other ∈ nodes, start other + added other ≤ running start placed node := by
  by_contra hnone
  push Not at hnone
  refine (h.sum_eq hadded).not_lt (Finset.sum_lt_sum (fun other hother => ?_) ?_)
  · by_cases hgiven : other ∈ placed.map Prod.snd
    · obtain ⟨e, he, rfl⟩ := List.mem_map.1 hgiven
      have hmore := hnone e.2 (List.mem_toFinset.1 hother)
      have hahead := h.running_le he hnode
      omega
    · rw [running_of_notMem hgiven]
      omega
  · exact ⟨node, List.mem_toFinset.2 hnode, hnone node hnode⟩

/-- The extremes of the counts of some nodes. -/
def extremes (nodes : List Node) (count : Node → Int) : LoadSummary := .ofLoads (nodes.map count)

theorem Greedy.maxLoad_le (h : Greedy nodes start placed)
    (hadded : ∑ node ∈ nodes.toFinset, added node = placed.length) :
    (extremes nodes (running start placed)).maxLoad ≤
      (extremes nodes fun node => start node + added node).maxLoad := by
  by_cases hnil : nodes = []
  · rw [hnil]
    exact le_rfl
  · rw [extremes, extremes, LoadSummary.maxLoad_le_iff (by simpa using hnil), List.forall_mem_map]
    intro node hnode
    obtain ⟨other, hother, hle⟩ := h.exists_ge hadded hnode
    exact hle.trans (LoadSummary.le_maxLoad (List.mem_map_of_mem hother))

theorem Greedy.minLoad_le (h : Greedy nodes start placed)
    (hadded : ∑ node ∈ nodes.toFinset, added node = placed.length) :
    (extremes nodes fun node => start node + added node).minLoad ≤
      (extremes nodes (running start placed)).minLoad := by
  by_cases hnil : nodes = []
  · rw [hnil]
    exact le_rfl
  · have hne : nodes.map (running start placed) ≠ [] := by simpa using hnil
    refine (LoadSummary.le_minLoad_iff hne _).2 (List.forall_mem_map.2 fun node hnode => ?_)
    obtain ⟨other, hother, hle⟩ := h.exists_le hadded hnode
    exact (LoadSummary.minLoad_le (List.mem_map_of_mem hother)).trans hle

end
end

/-! ## Placing -/

/-- The count of a node to start from. -/
def startOf (counts : Table Node Int) (node : Node) : Int := (counts.get? node).getD 0

/-- Every shard with the node that it is assigned to. -/
def assigned (placed : List (Shard × Node)) : List (Shard × Option Node) := placed.map fun e => (e.1, some e.2)

theorem assigned_shards (placed : List (Shard × Node)) : (assigned placed).map Prod.fst = placed.map Prod.fst := by
  rw [assigned, List.map_map]
  rfl

/-- What is dealt is written down shard by shard. -/
theorem placeFrom_of_dealFrom {queue : Queue Tally} {shards : List Shard} {placed : List (Shard × Node)}
    (h : dealFrom queue shards = .ok placed) (assignments : Table Shard (Option Node)) :
    placeFrom queue shards assignments = (assignments.insertAll (assigned placed), .ok ()) := by
  induction shards generalizing queue placed assignments with
  | nil =>
    cases h
    rfl
  | cons shard shards ih =>
    rw [dealFrom] at h
    rw [placeFrom]
    cases hpop : queue.pop? Tally.before with
    | none =>
      rw [hpop] at h
      cases h
    | some popped =>
      obtain ⟨tally, rest⟩ := popped
      rw [hpop] at h
      simp only at h
      cases hmore : dealFrom (rest.push Tally.before ⟨tally.count + 1, tally.node⟩) shards with
      | error e =>
        rw [hmore] at h
        cases h
      | ok more =>
        rw [hmore] at h
        cases h
        exact ih hmore _

theorem tallies_eq (counts : Table Node Int) :
    (counts.entries.map fun e => (⟨e.2, e.1⟩ : Tally)) = counts.keys.map fun node => ⟨startOf counts node, node⟩ := by
  rw [Table.keys, List.map_map]
  refine List.map_congr_left fun e he => ?_
  rw [Function.comp_apply, startOf, (counts.get?_eq_some_iff e.1 e.2).2 he, Option.getD_some]

theorem exists_place {counts : Table Node Int} {shards : List Shard} (h : counts.keys ≠ [] ∨ shards = [])
    (assignments : Table Shard (Option Node)) :
    ∃ placed, place counts shards assignments = (assignments.insertAll (assigned placed), .ok ()) ∧
      placed.map Prod.fst = shards ∧ Greedy counts.keys (startOf counts) placed := by
  by_cases hnil : shards = []
  · subst hnil
    exact ⟨[], rfl, rfl, greedy_nil⟩
  · obtain ⟨placed, hdeal, hshards, hgreedy⟩ :=
      exists_deal (h.resolve_right hnil) counts.keys_nodup (startOf counts) shards
    rw [← tallies_eq] at hdeal
    exact ⟨placed, placeFrom_of_dealFrom hdeal assignments, hshards, hgreedy⟩

/-- Without nodes nothing happens to the assignments from before. -/
theorem place_of_no_nodes {counts : Table Node Int} {shards : List Shard} (hcounts : counts.keys = [])
    (hshards : shards ≠ []) (assignments : Table Shard (Option Node)) :
    place counts shards assignments = (assignments, .error .noNodes) := by
  cases shards with
  | nil => exact absurd rfl hshards
  | cons shard shards =>
    rw [place, tallies_eq, hcounts]
    rfl

/-- Shards on the least loaded nodes: `placed` says in which order they went where. -/
structure Places (counts : Table Node Int) (shards : List Shard) (assignments after : Table Shard (Option Node))
    (placed : List (Shard × Node)) : Prop where
  shards_eq : placed.map Prod.fst = shards
  greedy : Greedy counts.keys (startOf counts) placed
  last : ∀ j shard, shards[j]? = some shard → shard ∉ shards.drop (j + 1) →
    ∃ node, placed[j]? = some (shard, node) ∧ after.get? shard = some (some node)
  others : ∀ shard, shard ∉ shards → after.get? shard = assignments.get? shard
  keys_prefix : assignments.keys <+: after.keys

theorem places_insertAll {counts : Table Node Int} {placed : List (Shard × Node)}
    (h : Greedy counts.keys (startOf counts) placed) (assignments : Table Shard (Option Node)) :
    Places counts (placed.map Prod.fst) assignments (assignments.insertAll (assigned placed)) placed := by
  refine ⟨rfl, h, fun j shard hshard hlast => ?_, fun shard hshard => ?_, assignments.keys_prefix_insertAll _⟩
  · rw [List.getElem?_map, Option.map_eq_some_iff] at hshard
    obtain ⟨⟨shard, node⟩, he, rfl⟩ := hshard
    have hpair : (assigned placed)[j]? = some (shard, some node) := by
      rw [assigned, List.getElem?_map, he]
      rfl
    have hget := Table.get?_ofList_of_last hpair (by rwa [List.map_drop, assigned_shards])
    exact ⟨node, he, by rw [Table.get?_insertAll_eq_or, hget, Option.some_or]⟩
  · exact Table.get?_insertAll_of_notMem (by rwa [assigned_shards]) assignments

theorem place_even (counts : Table Node Int) (shards : List Shard) (assignments : Table Shard (Option Node)) :
    (counts.keys = [] → shards ≠ [] → place counts shards assignments = (assignments, .error .noNodes)) ∧
    (counts.keys ≠ [] ∨ shards = [] → ∃ after placed, place counts shards assignments = (after, .ok ()) ∧
      Places counts shards assignments after placed ∧
      (∀ e ∈ placed, ∀ other ∈ counts.keys,
        running (startOf counts) placed e.2 ≤ running (startOf counts) placed other + 1) ∧
      ∀ added : Node → Nat, ∑ node ∈ counts.keys.toFinset, added node = shards.length →
        (extremes counts.keys (running (startOf counts) placed)).maxLoad ≤
            (extremes counts.keys fun node => startOf counts node + added node).maxLoad ∧
          (extremes counts.keys fun node => startOf counts node + added node).minLoad ≤
            (extremes counts.keys (running (startOf counts) placed)).minLoad) := by
  refine ⟨fun hcounts hshards => place_of_no_nodes hcounts hshards assignments, fun h => ?_⟩
  obtain ⟨placed, hplace, rfl, hgreedy⟩ := exists_place h assignments
  refine ⟨_, placed, hplace, places_insertAll hgreedy assignments, fun e he other => hgreedy.running_le he, ?_⟩
  intro added hadded
  rw [List.length_map] at hadded
  exact ⟨hgreedy.maxLoad_le hadded, hgreedy.minLoad_le hadded⟩

open Retain (host)

/-- One of the hosts starts far above the others and another one below zero. -/
def uneven : Table Node Int := .ofList [(host "b", 4), (host "a", -1), (host "c", 0)]

/-- A shard on a host that is gone, and one without a host. -/
def former : Table Shard (Option Node) :=
  .ofList [(⟨"t", [], [], 9⟩, some (host "d")), (⟨"t", [], [], 1⟩, none)]

/-- The first shard is listed twice, and its second place counts. -/
theorem place_even_uneven :
    (Table.empty : Table Node Int).keys = [] ∧ uneven.keys ≠ [] ∧
      place .empty [⟨"t", [], [], 0⟩] former = (former, .error .noNodes) ∧
      ∃ after placed,
        place uneven [⟨"t", [], [], 0⟩, ⟨"t", [], [], 1⟩, ⟨"t", [], [], 0⟩] former = (after, .ok ()) ∧
        Places uneven [⟨"t", [], [], 0⟩, ⟨"t", [], [], 1⟩, ⟨"t", [], [], 0⟩] former after placed ∧
        after.get? ⟨"t", [], [], 0⟩ = some (some (host "c")) ∧
        after.get? ⟨"t", [], [], 9⟩ = some (some (host "d")) ∧
        (extremes uneven.keys (running (startOf uneven) placed)).maxLoad ≤
          (extremes uneven.keys fun node => startOf uneven node + 1).maxLoad := by
  have hnone : (Table.empty : Table Node Int).keys = [] := rfl
  have hsome : uneven.keys ≠ [] := by decide
  obtain ⟨hfails, -⟩ := place_even .empty [⟨"t", [], [], 0⟩] former
  obtain ⟨-, hplaces⟩ := place_even uneven [⟨"t", [], [], 0⟩, ⟨"t", [], [], 1⟩, ⟨"t", [], [], 0⟩] former
  obtain ⟨after, placed, hplace, hplaced, -, hextremes⟩ := hplaces (.inl hsome)
  have hvalue : (place uneven [⟨"t", [], [], 0⟩, ⟨"t", [], [], 1⟩, ⟨"t", [], [], 0⟩] former).1.get?
      ⟨"t", [], [], 0⟩ = some (some (host "c")) := by cbv
  rw [hplace] at hvalue
  refine ⟨hnone, hsome, hfails hnone (by decide), after, placed, hplace, hplaced, hvalue, ?_, ?_⟩
  · rw [hplaced.others ⟨"t", [], [], 9⟩ (by decide)]
    rfl
  · exact (hextremes (fun _ => 1) (by decide)).1

end LeastLoaded
end Placement
