import Placement.Proofs.ColdStart
import Placement.Proofs.Rendering

/-!
# Placement with history

`Retain.Home` is the node that a shard returns to: of the nodes at the address of its previous owner the one
with the greatest start code.  Looking the written address up in a table finds the same node
(`Retain.home?_eq_get?`).  `Retain.Outcome` says where every shard is in the end: the shards that can return
are at home, the others follow the least loaded rule, and no shard is lost or listed twice.
-/

namespace Placement
set_option autoImplicit false

namespace Retain
variable {nodes members : List Node} {owner home node : Node}

/-! ## Homes -/

structure Home (nodes : List Node) (owner home : Node) : Prop where
  mem : home ∈ nodes
  address : home.address = owner.address
  newest : ∀ other ∈ nodes, other.address = owner.address → other.startCode ≤ home.startCode

namespace Home

/-- At one address the start code tells nodes apart. -/
theorem unique {other : Node} (h : Home nodes owner home) (h' : Home nodes owner other) : home = other := by
  have hcode := le_antisymm (h'.newest home h.mem h.address) (h.newest other h'.mem h'.address)
  exact Node.eq_of_address (h.address.trans h'.address.symm) hcode

theorem of_mem_iff (hmem : ∀ node, node ∈ members ↔ node ∈ nodes) (h : Home members owner home) :
    Home nodes owner home :=
  ⟨(hmem home).1 h.mem, h.address, fun other hother => h.newest other ((hmem other).2 hother)⟩

theorem concat (h : Home nodes owner home)
    (hnode : node.address = owner.address → node.startCode ≤ home.startCode) :
    Home (nodes ++ [node]) owner home := by
  refine ⟨List.mem_append_left _ h.mem, h.address, fun other hother haddress => ?_⟩
  rcases List.mem_append.1 hother with hother | hother
  · exact h.newest other hother haddress
  · rw [List.mem_singleton.1 hother] at haddress ⊢
    exact hnode haddress

theorem concat_self (haddress : node.address = owner.address)
    (hnewest : ∀ other ∈ nodes, other.address = owner.address → other.startCode ≤ node.startCode) :
    Home (nodes ++ [node]) owner node := by
  refine ⟨by simp, haddress, fun other hother haddress' => ?_⟩
  rcases List.mem_append.1 hother with hother | hother
  · exact hnewest other hother haddress'
  · rw [List.mem_singleton.1 hother]

end Home

theorem home_of_newest? (h : newest? nodes owner.address = some home) : Home nodes owner home := by
  induction nodes using List.reverseRecOn generalizing home with
  | nil => cases h
  | append_singleton nodes node ih =>
    rw [newest?_concat] at h
    by_cases haddress : node.address = owner.address
    · rw [if_pos haddress] at h
      cases hbest : newest? nodes owner.address with
      | none =>
        have hgone := (newest?_eq_none_iff nodes owner.address).1 hbest
        rw [hbest] at h
        cases h
        exact Home.concat_self haddress fun other hother haddress' => absurd haddress' (hgone other hother)
      | some current =>
        have hcurrent := ih hbest
        rw [hbest] at h
        simp only at h
        split_ifs at h with hnewer
        · cases h
          exact Home.concat_self haddress fun other hother haddress' =>
            (hcurrent.newest other hother haddress').trans hnewer.le
        · cases h
          exact hcurrent.concat fun _ => not_lt.1 hnewer
    · rw [if_neg haddress] at h
      exact (ih h).concat fun haddress' => absurd haddress' haddress

theorem newest?_eq_some_iff (nodes : List Node) (owner home : Node) :
    newest? nodes owner.address = some home ↔ Home nodes owner home := by
  refine ⟨home_of_newest?, fun h => ?_⟩
  cases hbest : newest? nodes owner.address with
  | none => exact absurd h.address ((newest?_eq_none_iff nodes owner.address).1 hbest home h.mem)
  | some best => rw [(home_of_newest? hbest).unique h]

theorem home?_eq_some_iff (nodes : List Node) (previous : Option Node) (home : Node) :
    home? nodes previous = some home ↔ ∃ owner, previous = some owner ∧ Home nodes owner home := by
  simp only [home?, Option.bind_eq_some_iff, newest?_eq_some_iff]

/-! ## Written addresses -/

/-- The newest node for every written address. -/
def newestByText (nodes : List Node) : Table String Node :=
  nodes.foldl (fun newest node =>
    match newest.get? node.address.text with
    | some current => if current.startCode < node.startCode then newest.insert node.address.text node else newest
    | none => newest.insert node.address.text node) .empty

theorem get?_newestByText (nodes : List Node) (a : Address) :
    (newestByText nodes).get? a.text = newest? nodes a := by
  induction nodes using List.reverseRecOn with
  | nil => rfl
  | append_singleton nodes node ih =>
    have hconcat : newestByText (nodes ++ [node]) =
        match (newestByText nodes).get? node.address.text with
        | some current =>
          if current.startCode < node.startCode then (newestByText nodes).insert node.address.text node
          else newestByText nodes
        | none => (newestByText nodes).insert node.address.text node := by
      rw [newestByText, List.foldl_append]
      rfl
    rw [hconcat, newest?_concat]
    by_cases haddress : node.address = a
    · subst haddress
      rw [ih]
      cases hbest : newest? nodes node.address with
      | none => simp [Table.get?_insert]
      | some current =>
        simp only [if_true]
        split_ifs
        · simp [Table.get?_insert]
        · rw [ih, hbest]
    · have htext : a.text ≠ node.address.text := fun h => haddress (Address.text_injective h).symm
      rw [if_neg haddress]
      split
      · split_ifs
        · rw [Table.get?_insert, if_neg htext, ih]
        · exact ih
      · rw [Table.get?_insert, if_neg htext, ih]

theorem home?_eq_get? (nodes : List Node) (owner : Node) :
    home? nodes (some owner) = (newestByText nodes).get? owner.address.text :=
  (get?_newestByText nodes owner.address).symm

/-! ## Who returns -/

/-- Some node is at the address of the previous owner. -/
def returns (nodes : List Node) (previous : Option Node) : Bool :=
  previous.any fun owner => nodes.any fun node => decide (node.address = owner.address)

theorem returns_some_iff (nodes : List Node) (owner : Node) :
    returns nodes (some owner) = true ↔ ∃ node ∈ nodes, node.address = owner.address := by
  simp [returns]

theorem returns_of_mem_iff (hmem : ∀ node, node ∈ members ↔ node ∈ nodes) : returns members = returns nodes := by
  funext previous
  cases previous with
  | none => rfl
  | some owner =>
    rw [Bool.eq_iff_iff, returns_some_iff, returns_some_iff]
    simp only [hmem]

theorem isSome_home? (nodes : List Node) (previous : Option Node) :
    (home? nodes previous).isSome = returns nodes previous := by
  cases previous with
  | none => rfl
  | some owner =>
    have hgone := newest?_eq_none_iff nodes owner.address
    rw [Bool.eq_iff_iff, returns_some_iff, home?, Option.bind_some, Option.isSome_iff_ne_none, Ne, hgone]
    push Not
    rfl

theorem exists_home (h : ∃ node ∈ nodes, node.address = owner.address) : ∃ home, Home nodes owner home := by
  rw [← returns_some_iff, ← isSome_home?, Option.isSome_iff_exists] at h
  obtain ⟨home, hhome⟩ := h
  obtain ⟨_, howner, hhome'⟩ := (home?_eq_some_iff nodes (some owner) home).1 hhome
  cases howner
  exact ⟨home, hhome'⟩

section
variable (nodes : List Node) (previous : Table Shard (Option Node))

theorem kept_shards :
    (kept nodes previous).map Prod.fst = (previous.entries.filter fun e => returns nodes e.2).map Prod.fst := by
  unfold kept
  induction previous.entries with
  | nil => rfl
  | cons e es ih =>
    rw [List.filterMap_cons, List.filter_cons, ← isSome_home?]
    cases home? nodes e.2 with
    | none => exact ih
    | some home => exact congrArg (e.1 :: ·) ih

theorem orphans_eq :
    orphans nodes previous = (previous.entries.filter fun e => !returns nodes e.2).map Prod.fst := by
  simp only [orphans, ← isSome_home?, Option.not_isSome]

theorem mem_kept_iff (e : Shard × Node) :
    e ∈ kept nodes previous ↔ ∃ owner, previous.get? e.1 = some (some owner) ∧ Home nodes owner e.2 := by
  simp only [kept, List.mem_filterMap, Option.map_eq_some_iff, home?_eq_some_iff, Table.get?_eq_some_iff]
  constructor
  · rintro ⟨entry, hentry, home, ⟨owner, howner, hhome⟩, rfl⟩
    refine ⟨owner, ?_, hhome⟩
    rwa [← howner]
  · rintro ⟨owner, hentry, hhome⟩
    exact ⟨_, hentry, e.2, ⟨owner, rfl, hhome⟩, rfl⟩

theorem kept_append_orphans :
    ((kept nodes previous).map Prod.fst ++ orphans nodes previous).Perm previous.keys := by
  rw [kept_shards, orphans_eq, ← List.map_append]
  exact (List.filter_append_perm _ _).map Prod.fst

end

/-! ## The outcome -/

/-- What becomes of shards with a history: `returned` are those that are back at the address of their owners,
`moved` the others, each with its node. -/
structure Outcome (previous : Table Shard (Option Node)) (nodes : List Node) (result : Table Node (List Shard))
    (returned moved : List (Shard × Node)) : Prop where
  complete : result.values.flatten.Perm previous.keys
  node_mem : ∀ node ∈ result.keys, node ∈ nodes
  list_ne_nil : ∀ shards ∈ result.values, shards ≠ []
  returned_shards :
    returned.map Prod.fst = (previous.entries.filter fun e => returns nodes e.2).map Prod.fst
  returned_home : ∀ e ∈ returned, ∃ owner, previous.get? e.1 = some (some owner) ∧ Home nodes owner e.2
  moved_shards :
    moved.map Prod.fst = (previous.entries.filter fun e => !returns nodes e.2).map Prod.fst
  moved_greedy : LeastLoaded.Greedy nodes (fun node => (returned.countP fun e => e.2 = node : Nat)) moved
  /-- The shards that returned come first. -/
  list_eq : ∀ node, result.row node = ((returned ++ moved).filter fun e => e.2 = node).map Prod.fst

theorem distinct_ne_nil (hne : nodes ≠ []) : Ordered.distinct nodes ≠ [] := by
  obtain ⟨node, hnode⟩ := List.exists_mem_of_ne_nil nodes hne
  exact List.ne_nil_of_mem ((Ordered.mem_distinct node nodes).2 hnode)

/-- The shards without a home are dealt when there is a node at all. -/
theorem exists_deal_orphans (previous : Table Shard (Option Node)) (hne : nodes ≠ []) :
    ∃ moved, LeastLoaded.deal (tallies (Ordered.distinct nodes) (kept (Ordered.distinct nodes) previous))
        (orphans (Ordered.distinct nodes) previous) = .ok moved ∧
      moved.map Prod.fst = orphans (Ordered.distinct nodes) previous ∧
      LeastLoaded.Greedy (Ordered.distinct nodes)
        (fun node => ((kept (Ordered.distinct nodes) previous).countP fun e => e.2 = node : Nat)) moved :=
  LeastLoaded.exists_deal (distinct_ne_nil hne) (Ordered.distinct_nodup nodes) _ _

/-- The result lists the shards that returned, then those that were dealt. -/
theorem exists_moved (previous : Table Shard (Option Node)) (hne : nodes ≠ []) :
    ∃ moved, (assign previous nodes).result =
        .grouped ((kept (Ordered.distinct nodes) previous ++ moved).map fun e => (e.2, e.1)) ∧
      moved.map Prod.fst = orphans (Ordered.distinct nodes) previous ∧
      LeastLoaded.Greedy (Ordered.distinct nodes)
        (fun node => ((kept (Ordered.distinct nodes) previous).countP fun e => e.2 = node : Nat)) moved := by
  obtain ⟨moved, hdeal, hshards, hgreedy⟩ := exists_deal_orphans previous hne
  exact ⟨moved, assign_of_deal (distinct_ne_nil hne) hdeal, hshards, hgreedy⟩

theorem exists_outcome (previous : Table Shard (Option Node)) (hne : nodes ≠ []) :
    ∃ returned moved, Outcome previous nodes (assign previous nodes).result returned moved := by
  obtain ⟨moved, hresult, hshards, hgreedy⟩ := exists_moved previous hne
  have hmem := fun node => Ordered.mem_distinct node nodes
  have hreturns := returns_of_mem_iff hmem
  refine ⟨kept (Ordered.distinct nodes) previous, moved, ?_⟩
  rw [hresult]
  refine ⟨?_, ?_, fun shards => Table.ne_nil_of_mem_grouped, ?_, ?_, ?_, hgreedy.of_mem_iff hmem, ?_⟩
  · refine (Table.values_grouped _).trans ?_
    rw [List.map_map, List.map_append]
    exact (List.Perm.of_eq (congrArg _ hshards)).trans (kept_append_orphans _ previous)
  · intro node hnode
    rw [Table.keys_grouped, List.mem_eraseDups, List.map_map] at hnode
    obtain ⟨e, he, rfl⟩ := List.mem_map.1 hnode
    rcases List.mem_append.1 he with he | he
    · obtain ⟨owner, -, hhome⟩ := (mem_kept_iff _ previous e).1 he
      exact (hmem e.2).1 hhome.mem
    · exact (hmem e.2).1 (hgreedy.mem he)
  · rw [kept_shards, hreturns]
  · intro e he
    obtain ⟨owner, howner, hhome⟩ := (mem_kept_iff _ previous e).1 he
    exact ⟨owner, howner, hhome.of_mem_iff hmem⟩
  · rw [hshards, orphans_eq, hreturns]
  · intro node
    rw [Table.row_grouped, List.filter_map, List.map_map]
    rfl

namespace Outcome
variable {previous : Table Shard (Option Node)} {result : Table Node (List Shard)}
  {returned moved : List (Shard × Node)}

theorem mem_row_iff_mem (h : Outcome previous nodes result returned moved) (shard : Shard) (node : Node) :
    shard ∈ result.row node ↔ (shard, node) ∈ returned ++ moved := by
  rw [h.list_eq, List.mem_map]
  constructor
  · rintro ⟨e, he, rfl⟩
    obtain ⟨hmem, hnode⟩ := List.mem_filter.1 he
    rwa [← of_decide_eq_true hnode]
  · intro hmem
    exact ⟨(shard, node), List.mem_filter.2 ⟨hmem, decide_eq_true rfl⟩, rfl⟩

theorem mem_returned (h : Outcome previous nodes result returned moved) {shard : Shard}
    (howner : previous.get? shard = some (some owner)) (hhome : Home nodes owner home) :
    (shard, home) ∈ returned := by
  have hreturns : returns nodes (some owner) = true :=
    (returns_some_iff nodes owner).2 ⟨home, hhome.mem, hhome.address⟩
  have hentry := (Table.get?_eq_some_iff previous shard _).1 howner
  have hshard : shard ∈ returned.map Prod.fst := by
    rw [h.returned_shards]
    exact List.mem_map_of_mem (f := Prod.fst) (List.mem_filter.2 ⟨hentry, hreturns⟩)
  obtain ⟨e, he, rfl⟩ := List.mem_map.1 hshard
  obtain ⟨owner', howner', hhome'⟩ := h.returned_home e he
  rw [howner] at howner'
  cases howner'
  rwa [hhome.unique hhome']

theorem returned_shards_nodup (h : Outcome previous nodes result returned moved) : (returned.map Prod.fst).Nodup := by
  rw [h.returned_shards]
  exact previous.keys_nodup.sublist (List.filter_sublist.map Prod.fst)

theorem mem_row_home (h : Outcome previous nodes result returned moved) {shard : Shard}
    (howner : previous.get? shard = some (some owner)) (hhome : Home nodes owner home) :
    shard ∈ result.row home :=
  (h.mem_row_iff_mem shard home).2 (List.mem_append_left _ (h.mem_returned howner hhome))

theorem mem_keys_iff (h : Outcome previous nodes result returned moved) :
    node ∈ result.keys ↔ node ∈ returned.map Prod.snd ∨ node ∈ moved.map Prod.snd := by
  rw [Table.mem_keys_iff_row_ne_nil h.list_ne_nil, h.list_eq, Ne, List.map_eq_nil_iff, List.filter_eq_nil_iff]
  simp [exists_or]

end Outcome

theorem assign_retains (previous : Table Shard (Option Node)) (nodes : List Node) (hne : nodes ≠ []) :
    (∀ owner, home? (Ordered.distinct nodes) (some owner) =
      (newestByText (Ordered.distinct nodes)).get? owner.address.text) ∧
    (∃ returned moved, Outcome previous nodes (assign previous nodes).result returned moved) ∧
    (∀ shard owner, previous.get? shard = some (some owner) →
      (∃ node ∈ nodes, node.host = owner.host ∧ node.port = owner.port) →
      ∃ home, Home nodes owner home ∧ shard ∈ (assign previous nodes).result.row home) ∧
    ∀ shard owner, previous.get? shard = some (some owner) → owner ∈ nodes →
      (∀ node ∈ nodes, node.host = owner.host → node.port = owner.port → node.startCode ≤ owner.startCode) →
      shard ∈ (assign previous nodes).result.row owner := by
  obtain ⟨returned, moved, houtcome⟩ := exists_outcome previous hne
  refine ⟨home?_eq_get? _, ⟨returned, moved, houtcome⟩, ?_, ?_⟩
  · rintro shard owner howner ⟨node, hnode, hhost, hport⟩
    obtain ⟨home, hhome⟩ := exists_home ⟨node, hnode, (Node.address_eq_iff node owner).2 ⟨hhost, hport⟩⟩
    exact ⟨home, hhome, houtcome.mem_row_home howner hhome⟩
  · intro shard owner howner hmem hnewest
    refine houtcome.mem_row_home howner ⟨hmem, rfl, fun node hnode haddress => ?_⟩
    obtain ⟨hhost, hport⟩ := (Node.address_eq_iff node owner).1 haddress
    exact hnewest node hnode hhost hport

/-- Owners that are unknown, restarted, gone and still there. -/
def recorded : Table Shard (Option Node) :=
  .ofList [(⟨"t", [], [], 0⟩, none), (⟨"t", [], [], 1⟩, some (host "a")), (⟨"t", [], [], 2⟩, some (host "c")),
    (⟨"t", [], [], 3⟩, some (host "b"))]

/-- One of the hosts is listed with two of its runs. -/
def relisted : List Node := [host "b", { host "a" with startCode := 2 }, host "a", host "b"]

theorem assign_retains_recorded :
    relisted ≠ [] ∧
      (assign recorded relisted).result.values.flatten.Perm recorded.keys ∧
      ⟨"t", [], [], 1⟩ ∈ (assign recorded relisted).result.row { host "a" with startCode := 2 } ∧
      ⟨"t", [], [], 3⟩ ∈ (assign recorded relisted).result.row (host "b") := by
  have hne : relisted ≠ [] := by decide
  obtain ⟨-, ⟨returned, moved, houtcome⟩, hreturn, hstay⟩ := assign_retains recorded relisted hne
  refine ⟨hne, houtcome.complete, ?_, ?_⟩
  · obtain ⟨home, hhome, hmem⟩ := hreturn ⟨"t", [], [], 1⟩ (host "a") (by decide) (by decide)
    have hrestarted : Home relisted (host "a") { host "a" with startCode := 2 } :=
      ⟨by decide, rfl, by decide⟩
    rwa [hhome.unique hrestarted] at hmem
  · exact hstay ⟨"t", [], [], 3⟩ (host "b") (by decide) (by decide) (by decide)

end Retain
end Placement
