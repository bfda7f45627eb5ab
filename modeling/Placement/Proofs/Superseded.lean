import Placement.Proofs.Retained

/-!
# Superseded nodes

A node is superseded when another run of its address is listed with a greater start code.  Shards that return
never go to a superseded node, but shards without a home may: such a node counts as empty, and it gets one of
them as soon as there are more of them than empty nodes before it (`Retain.assign_newest_iff`).
-/

namespace Placement
set_option autoImplicit false

namespace Retain
variable {previous : Table Shard (Option Node)} {nodes : List Node} {owner home node : Node}

def Superseded (nodes : List Node) (node : Node) : Prop :=
  ∃ other ∈ nodes, other.host = node.host ∧ other.port = node.port ∧ node.startCode < other.startCode

instance (nodes : List Node) (node : Node) : Decidable (Superseded nodes node) :=
  inferInstanceAs (Decidable (∃ other ∈ nodes, _))

/-- No shard returns to the node. -/
def Empty (previous : Table Shard (Option Node)) (nodes : List Node) (node : Node) : Prop :=
  ∀ e ∈ previous.entries, home? nodes e.2 ≠ some node

instance (previous : Table Shard (Option Node)) (nodes : List Node) (node : Node) :
    Decidable (Empty previous nodes node) := inferInstanceAs (Decidable (∀ e ∈ previous.entries, _))

theorem Home.not_superseded (h : Home nodes owner home) : ¬ Superseded nodes home := by
  rintro ⟨other, hother, hhost, hport, hcode⟩
  have haddress := (Node.address_eq_iff other home).2 ⟨hhost, hport⟩
  exact absurd (h.newest other hother (haddress.trans h.address)) (not_le.2 hcode)

theorem empty_iff (previous : Table Shard (Option Node)) (nodes : List Node) (node : Node) :
    Empty previous nodes node ↔
      ∀ shard owner, previous.get? shard = some (some owner) → ¬ Home nodes owner node := by
  simp only [Empty, Ne, home?_eq_some_iff, Table.get?_eq_some_iff]
  constructor
  · intro h shard owner howner hhome
    exact h _ howner ⟨owner, rfl, hhome⟩
  · rintro h ⟨shard, previous⟩ he ⟨owner, rfl, hhome⟩
    exact h shard owner he hhome

theorem Superseded.empty (h : Superseded nodes node) (previous : Table Shard (Option Node)) :
    Empty previous nodes node :=
  (empty_iff previous nodes node).2 fun _ _ _ hhome => hhome.not_superseded h

namespace Outcome
variable {result : Table Node (List Shard)} {returned moved : List (Shard × Node)}

theorem moved_eq_orphans (h : Outcome previous nodes result returned moved) :
    moved.map Prod.fst = orphans nodes previous := h.moved_shards.trans (orphans_eq nodes previous).symm

theorem notMem_returned_iff (h : Outcome previous nodes result returned moved) :
    node ∉ returned.map Prod.snd ↔ Empty previous nodes node := by
  rw [empty_iff]
  constructor
  · intro hnode shard owner howner hhome
    exact hnode (List.mem_map_of_mem (f := Prod.snd) (h.mem_returned howner hhome))
  · rintro hempty hnode
    obtain ⟨e, he, rfl⟩ := List.mem_map.1 hnode
    obtain ⟨owner, howner, hhome⟩ := h.returned_home e he
    exact hempty e.1 owner howner hhome

theorem countP_returned_eq_zero_iff (h : Outcome previous nodes result returned moved) (node : Node) :
    ((returned.countP fun e => e.2 = node : Nat) : Int) = 0 ↔ Empty previous nodes node := by
  rw [← h.notMem_returned_iff, Int.natCast_eq_zero, List.countP_eq_zero]
  simp only [List.mem_map, not_exists, not_and, decide_eq_true_eq]

/-- An empty node gets a shard when there are more shards without a home than empty nodes before it. -/
theorem mem_keys_iff_of_empty (h : Outcome previous nodes result returned moved) (hnode : node ∈ nodes)
    (hempty : Empty previous nodes node) :
    node ∈ result.keys ↔
      (nodes.toFinset.filter fun other => other < node ∧ Empty previous nodes other).card <
        (orphans nodes previous).length := by
  have hfill := h.moved_greedy.mem_iff_of_empty (fun _ _ => Int.natCast_nonneg _) hnode
    ((h.countP_returned_eq_zero_iff node).2 hempty)
  simp only [h.countP_returned_eq_zero_iff] at hfill
  rw [h.mem_keys_iff, or_iff_right (h.notMem_returned_iff.2 hempty), hfill, ← h.moved_eq_orphans, List.length_map]

theorem mem_orphans_of_superseded (h : Outcome previous nodes result returned moved)
    (hnode : Superseded nodes node) {shard : Shard} (hshard : shard ∈ result.row node) :
    shard ∈ orphans nodes previous := by
  rcases List.mem_append.1 ((h.mem_row_iff_mem shard node).1 hshard) with hreturned | hmoved
  · have hempty := h.notMem_returned_iff.2 (hnode.empty previous)
    exact absurd (List.mem_map_of_mem (f := Prod.snd) hreturned) hempty
  · exact h.moved_eq_orphans ▸ List.mem_map_of_mem (f := Prod.fst) hmoved

end Outcome

theorem assign_newest_iff (previous : Table Shard (Option Node)) (nodes : List Node) :
    (∀ node, Superseded nodes node → ∀ shard ∈ (assign previous nodes).result.row node,
      shard ∈ orphans nodes previous) ∧
    ((∀ node ∈ (assign previous nodes).result.keys, ¬ Superseded nodes node) ↔
      ∀ node ∈ nodes, Superseded nodes node → (orphans nodes previous).length ≤
        (nodes.toFinset.filter fun other => other < node ∧ Empty previous nodes other).card) := by
  by_cases hne : nodes = []
  · subst hne
    rw [assign_nil]
    exact ⟨fun _ _ _ hshard => absurd hshard List.not_mem_nil, by simp [Table.keys, Table.empty]⟩
  · obtain ⟨returned, moved, houtcome⟩ := exists_outcome previous hne
    refine ⟨fun node hnode shard => houtcome.mem_orphans_of_superseded hnode, ?_⟩
    constructor
    · intro hall node hnode hsuperseded
      have hkey := houtcome.mem_keys_iff_of_empty hnode (hsuperseded.empty previous)
      exact not_lt.1 fun hlt => hall node (hkey.2 hlt) hsuperseded
    · intro hfew node hkey hsuperseded
      have hnode := houtcome.node_mem node hkey
      have hlt := (houtcome.mem_keys_iff_of_empty hnode (hsuperseded.empty previous)).1 hkey
      exact absurd (hfew node hnode hsuperseded) (not_le.2 hlt)

/-- One shard that nobody owned, and two runs of one host. -/
theorem assign_newest_two_runs :
    ∃ node ∈ (assign (.ofList [(⟨"t", [], [], 0⟩, none)]) [host "a", { host "a" with startCode := 2 }]).result.keys,
      Superseded [host "a", { host "a" with startCode := 2 }] node := by
  have hold : Superseded [host "a", { host "a" with startCode := 2 }] (host "a") := by decide
  obtain ⟨-, hiff⟩ := assign_newest_iff (.ofList [(⟨"t", [], [], 0⟩, none)])
    [host "a", { host "a" with startCode := 2 }]
  by_contra hall
  push Not at hall
  have hle := hiff.1 hall (host "a") (by decide) hold
  revert hle
  decide

end Retain
end Placement
