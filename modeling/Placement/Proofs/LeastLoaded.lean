import Placement.LeastLoaded
import Placement.Proofs.Identity
import Placement.Proofs.Queue

/-!
# Least loaded placement by scans and in turns

Dealing from a queue is the same as scanning the tallies for the least one at every shard, and the order in
which the queue was filled makes no difference (`LeastLoaded.deal_eq_scan`).  `LeastLoaded.Greedy` says which
node every shard is to be on, and dealing follows it (`LeastLoaded.exists_deal`).  From tallies of zero the shards
go round and round over the nodes in identity order (`LeastLoaded.deal_in_turns`).
-/

namespace Placement
set_option autoImplicit false

namespace Tally

def key (t : Tally) : Int ×ₗ Node := toLex (t.count, t.node)

theorem key_injective : Function.Injective key := by
  rintro ⟨count, node⟩ ⟨count', node'⟩ h
  simpa [key] using h

theorem before_iff (a b : Tally) : a.before b = true ↔ a.key ≤ b.key := by
  simp [before, key, Prod.Lex.le_iff]

end Tally

namespace LeastLoaded

/-! ## Scans -/

theorem least?_eq_none_iff (tallies : List Tally) : least? tallies = none ↔ tallies = [] := by
  cases tallies with
  | nil => simp [least?]
  | cons t ts =>
    simp only [least?, reduceCtorEq, iff_false]
    split
    · simp
    · split_ifs <;> simp

theorem mem_of_least? {tallies : List Tally} {t : Tally} (h : least? tallies = some t) :
    t ∈ tallies ∧ ∀ u ∈ tallies, t.key ≤ u.key := by
  induction tallies generalizing t with
  | nil => cases h
  | cons first others ih =>
    rw [least?] at h
    cases hothers : least? others with
    | none =>
      rw [hothers] at h
      cases h
      rw [(least?_eq_none_iff others).1 hothers]
      simp
    | some u =>
      obtain ⟨hmem, hle⟩ := ih hothers
      rw [hothers] at h
      simp only [Tally.before_iff] at h
      split_ifs at h with hfirst
      · cases h
        refine ⟨List.mem_cons_self, List.forall_mem_cons.2 ⟨le_rfl, fun v hv => ?_⟩⟩
        exact hfirst.trans (hle v hv)
      · cases h
        exact ⟨List.mem_cons_of_mem _ hmem, List.forall_mem_cons.2 ⟨(not_le.1 hfirst).le, hle⟩⟩

/-- There is only one least tally. -/
theorem least?_eq_some_iff (tallies : List Tally) (t : Tally) :
    least? tallies = some t ↔ t ∈ tallies ∧ ∀ u ∈ tallies, t.key ≤ u.key := by
  constructor
  · exact mem_of_least?
  · rintro ⟨hmem, hle⟩
    cases h : least? tallies with
    | none =>
      rw [(least?_eq_none_iff tallies).1 h] at hmem
      cases hmem
    | some u =>
      obtain ⟨hmem', hle'⟩ := mem_of_least? h
      rw [Tally.key_injective ((hle u hmem').antisymm (hle' t hmem))]

theorem count_cons_of_notMem {t : Tally} {others : List Tally} (h : t.node ∉ others.map Tally.node) :
    count t.node (t :: others) = ⟨t.count + 1, t.node⟩ :: others := by
  rw [count, List.map_cons, if_pos rfl]
  congr 1
  refine (List.map_congr_left fun u hu => if_neg fun he => h ?_).trans (List.map_id others)
  exact he ▸ List.mem_map_of_mem hu

theorem nodes_count (node : Node) (tallies : List Tally) :
    (count node tallies).map Tally.node = tallies.map Tally.node := by
  rw [count, List.map_map]
  apply List.map_congr_left
  intro t _
  rw [Function.comp_apply]
  split_ifs <;> rfl

/-- A queue of the tallies hands out the least one, and one more is counted in the same place. -/
theorem dealFrom_eq_scan {queue : Queue Tally} {tallies : List Tally} (hqueue : queue.Heaped Tally.key)
    (hperm : queue.toList.Perm tallies) (hnodup : (tallies.map Tally.node).Nodup) (shards : List Shard) :
    dealFrom queue shards = scan tallies shards := by
  induction shards generalizing queue tallies with
  | nil => rfl
  | cons shard shards ih =>
    cases hpop : queue.pop? Tally.before with
    | none =>
      rw [Queue.toList_eq_nil_of_pop? hpop, List.nil_perm] at hperm
      rw [hperm, dealFrom, hpop]
      rfl
    | some popped =>
      obtain ⟨t, rest⟩ := popped
      obtain ⟨hleast, hrest⟩ := hqueue.pop? Tally.before_iff hpop
      have hfront := (Queue.perm_of_pop? hpop).symm.trans hperm
      have hscan : least? tallies = some t := by
        refine (least?_eq_some_iff tallies t).2 ⟨hfront.mem_iff.1 List.mem_cons_self, fun u hu => ?_⟩
        exact hleast u (hperm.mem_iff.2 hu)
      -- The node of the least tally has no other one, so counting it leaves the rest as it is.
      have hnotMem : t.node ∉ rest.toList.map Tally.node := by
        have h := (hfront.map Tally.node).nodup_iff.2 hnodup
        exact (List.nodup_cons.1 h).1
      have hcount : (rest.push Tally.before ⟨t.count + 1, t.node⟩).toList.Perm (count t.node tallies) := by
        refine (Queue.toList_push Tally.before _ rest).trans ?_
        rw [← count_cons_of_notMem hnotMem]
        exact hfront.map _
      rw [dealFrom, hpop, scan, hscan]
      simp only
      rw [ih (hrest.push Tally.before_iff _) hcount (by rwa [nodes_count])]

theorem deal_eq_scan {filled tallies : List Tally} (hperm : filled.Perm tallies)
    (hnodup : (tallies.map Tally.node).Nodup) (shards : List Shard) :
    deal filled shards = scan tallies shards :=
  dealFrom_eq_scan (Queue.heaped_ofList Tally.before_iff filled)
    ((Queue.toList_ofList Tally.before filled).trans hperm) hnodup shards

/-! ## The rule -/

section Rule
variable {nodes : List Node} {start : Node → Int}

/-- No node has fewer, and none with as few comes before it. -/
def Least (nodes : List Node) (load : Node → Int) (node : Node) : Prop :=
  node ∈ nodes ∧ ∀ other ∈ nodes, load node < load other ∨ load node = load other ∧ node ≤ other

theorem Least.load_le {load : Node → Int} {node other : Node} (h : Least nodes load node) (hother : other ∈ nodes) :
    load node ≤ load other := by
  rcases h.2 other hother with hlt | ⟨heq, -⟩
  · exact hlt.le
  · exact heq.le

/-- Identities break all ties. -/
theorem Least.unique {load : Node → Int} {node other : Node} (h : Least nodes load node)
    (hother : Least nodes load other) : node = other := by
  have hload := (h.load_le hother.1).antisymm (hother.load_le h.1)
  have hle := (h.2 other hother.1).resolve_left hload.not_lt
  have hge := (hother.2 node h.1).resolve_left hload.not_gt
  exact le_antisymm hle.2 hge.2

/-- The count of a node after some shards have been placed. -/
def running (start : Node → Int) (placed : List (Shard × Node)) (node : Node) : Int :=
  start node + (placed.countP fun e => e.2 = node : Nat)

/-- Every shard is on the node that had the least count when its turn came. -/
def Greedy (nodes : List Node) (start : Node → Int) (placed : List (Shard × Node)) : Prop :=
  ∀ earlier shard node later, placed = earlier ++ (shard, node) :: later →
    Least nodes (running start earlier) node

theorem running_cons (start : Node → Int) (e : Shard × Node) (placed : List (Shard × Node)) :
    running start (e :: placed) = running (fun node => start node + if node = e.2 then 1 else 0) placed := by
  funext node
  rw [running, running, List.countP_cons]
  by_cases h : e.2 = node
  · simp only [h, decide_true, if_true]
    omega
  · simp [h, Ne.symm h]

theorem greedy_nil : Greedy nodes start [] := by
  intro earlier shard node later h
  simp at h

theorem running_nil (start : Node → Int) : running start [] = start := funext fun _ => Int.add_zero _

theorem Greedy.cons {shard : Shard} {node : Node} {placed : List (Shard × Node)}
    (hleast : Least nodes start node)
    (h : Greedy nodes (fun other => start other + if other = node then 1 else 0) placed) :
    Greedy nodes start ((shard, node) :: placed) := by
  intro earlier shard' node' later heq
  cases earlier with
  | nil =>
    obtain ⟨hhead, -⟩ := List.cons.inj heq
    cases hhead
    rwa [running_nil]
  | cons e earlier =>
    obtain ⟨rfl, htail⟩ := List.cons.inj heq
    rw [running_cons]
    exact h earlier shard' node' later htail

theorem Greedy.head {shard : Shard} {node : Node} {placed : List (Shard × Node)}
    (h : Greedy nodes start ((shard, node) :: placed)) : Least nodes start node := by
  have hleast := h [] shard node placed rfl
  rwa [running_nil] at hleast

theorem Greedy.tail {shard : Shard} {node : Node} {placed : List (Shard × Node)}
    (h : Greedy nodes start ((shard, node) :: placed)) :
    Greedy nodes (fun other => start other + if other = node then 1 else 0) placed := by
  intro earlier shard' node' later heq
  have hleast := h ((shard, node) :: earlier) shard' node' later (congrArg _ heq)
  rwa [running_cons] at hleast

/-- The counts alone say which node comes next, whatever the shards are. -/
theorem Greedy.nodes_eq {placed others : List (Shard × Node)} (h : Greedy nodes start placed)
    (hothers : Greedy nodes start others) (hlength : placed.length = others.length) :
    placed.map Prod.snd = others.map Prod.snd := by
  induction placed generalizing start others with
  | nil => rw [List.eq_nil_of_length_eq_zero hlength.symm]
  | cons e placed ih =>
    cases others with
    | nil => cases hlength
    | cons other others =>
      have hnode : e.2 = other.2 := h.head.unique hothers.head
      have htail := hothers.tail
      rw [← hnode] at htail
      rw [List.map_cons, List.map_cons, hnode, ih h.tail htail (Nat.succ.inj hlength)]

/-- Nodes without a count get their first shards in identity order, before any node gets a second one. -/
theorem Greedy.mem_iff_of_empty {placed : List (Shard × Node)} {node : Node} (h : Greedy nodes start placed)
    (hstart : ∀ other ∈ nodes, 0 ≤ start other) (hnode : node ∈ nodes) (hempty : start node = 0) :
    node ∈ placed.map Prod.snd ↔
      (nodes.toFinset.filter fun other => other < node ∧ start other = 0).card < placed.length := by
  induction placed generalizing start with
  | nil => simp
  | cons e placed ih =>
    obtain ⟨shard, first⟩ := e
    obtain ⟨hfirst, hle⟩ := h.head
    have hfirst0 := hstart first hfirst
    by_cases heq : first = node
    · subst heq
      have hnone : (nodes.toFinset.filter fun other => other < first ∧ start other = 0) = ∅ := by
        rw [Finset.filter_eq_empty_iff]
        rintro other hother ⟨hlt, hzero⟩
        rcases hle other (List.mem_toFinset.1 hother) with hmore | ⟨-, hbehind⟩
        · omega
        · exact absurd hlt (not_lt.2 hbehind)
      simp [hnone]
    · -- The first shard uses up one of the empty nodes before this one.
      have hbefore : start first = 0 ∧ first < node := by
        rcases hle node hnode with hless | ⟨hsame, hbehind⟩
        · omega
        · exact ⟨hsame.trans hempty, lt_of_le_of_ne hbehind heq⟩
      have hmem : first ∈ nodes.toFinset.filter fun other => other < node ∧ start other = 0 :=
        Finset.mem_filter.2 ⟨List.mem_toFinset.2 hfirst, hbefore.2, hbefore.1⟩
      have hused : (nodes.toFinset.filter fun other =>
            other < node ∧ (start other + if other = first then 1 else 0) = 0) =
          (nodes.toFinset.filter fun other => other < node ∧ start other = 0).erase first := by
        ext other
        by_cases hother : other = first
        · simp [hother, hbefore.1]
        · simp [hother]
      have hrest := ih h.tail (fun other hother => by have := hstart other hother; split_ifs <;> omega)
        (by rw [if_neg (Ne.symm heq), hempty, Int.add_zero])
      have hcard := Finset.card_erase_add_one hmem
      rw [List.map_cons, List.mem_cons, or_iff_right (Ne.symm heq), hrest, hused, List.length_cons]
      omega

theorem Greedy.of_mem_iff {members : List Node} (hmem : ∀ node, node ∈ members ↔ node ∈ nodes)
    {placed : List (Shard × Node)} (h : Greedy members start placed) : Greedy nodes start placed := by
  intro earlier shard node later heq
  obtain ⟨hnode, hle⟩ := h earlier shard node later heq
  exact ⟨(hmem node).1 hnode, fun other hother => hle other ((hmem other).2 hother)⟩

theorem Greedy.mem {placed : List (Shard × Node)} (h : Greedy nodes start placed) {e : Shard × Node}
    (he : e ∈ placed) : e.2 ∈ nodes := by
  obtain ⟨earlier, later, rfl⟩ := List.append_of_mem he
  exact (h earlier e.1 e.2 later rfl).1

theorem least?_map {load : Node → Int} {t : Tally} (h : least? (nodes.map fun node => ⟨load node, node⟩) = some t) :
    Least nodes load t.node := by
  obtain ⟨hmem, hle⟩ := mem_of_least? h
  obtain ⟨node, hnode, rfl⟩ := List.mem_map.1 hmem
  refine ⟨hnode, fun other hother => ?_⟩
  have hkey := hle _ (List.mem_map_of_mem hother)
  simpa [Tally.key, Prod.Lex.toLex_le_toLex] using hkey

theorem count_map (load : Node → Int) (node : Node) :
    count node (nodes.map fun other => ⟨load other, other⟩) =
      nodes.map fun other => ⟨load other + if other = node then 1 else 0, other⟩ := by
  rw [count, List.map_map]
  apply List.map_congr_left
  intro other _
  rw [Function.comp_apply]
  split_ifs <;> simp

/-- Scans never fail when there are nodes, and they follow the rule. -/
theorem exists_scan (hne : nodes ≠ []) (start : Node → Int) (shards : List Shard) :
    ∃ placed, scan (nodes.map fun node => ⟨start node, node⟩) shards = .ok placed ∧
      placed.map Prod.fst = shards ∧ Greedy nodes start placed := by
  induction shards generalizing start with
  | nil => exact ⟨[], rfl, rfl, greedy_nil⟩
  | cons shard shards ih =>
    cases hleast : least? (nodes.map fun node => ⟨start node, node⟩) with
    | none =>
      rw [least?_eq_none_iff, List.map_eq_nil_iff] at hleast
      exact absurd hleast hne
    | some t =>
      obtain ⟨placed, hscan, hshards, hgreedy⟩ := ih fun other => start other + if other = t.node then 1 else 0
      refine ⟨(shard, t.node) :: placed, ?_, congrArg (shard :: ·) hshards, hgreedy.cons (least?_map hleast)⟩
      rw [scan, hleast]
      simp only
      rw [count_map, hscan]
      rfl

/-- Dealing to different nodes never fails either, and it follows the rule. -/
theorem exists_deal (hne : nodes ≠ []) (hnodup : nodes.Nodup) (start : Node → Int) (shards : List Shard) :
    ∃ placed, deal (nodes.map fun node => ⟨start node, node⟩) shards = .ok placed ∧
      placed.map Prod.fst = shards ∧ Greedy nodes start placed := by
  have hnodes : (nodes.map fun node => (⟨start node, node⟩ : Tally)).map Tally.node = nodes := by
    rw [List.map_map]
    exact List.map_id _
  obtain ⟨placed, hscan, hplaced⟩ := exists_scan hne start shards
  refine ⟨placed, ?_, hplaced⟩
  rw [deal_eq_scan (List.Perm.refl _) (hnodes.symm ▸ hnodup), hscan]

end Rule

/-! ## Turns -/

section Turns
variable {members : List Node}

/-- The member whose turn it is after some shards have been dealt. -/
def onTurn (members : List Node) (hpos : 0 < members.length) (i : Nat) : Node :=
  members.get ⟨i % members.length, Nat.mod_lt i hpos⟩

/-- The tallies after some shards have been dealt in turns: the full rounds for every member, and one more for
those that have had their turn in the round under way. -/
def afterTurns (members : List Node) (i : Nat) : List Tally :=
  members.mapIdx fun k node => ⟨(i / members.length + if k < i % members.length then 1 else 0 : Nat), node⟩

theorem nodes_afterTurns (i : Nat) : (afterTurns members i).map Tally.node = members := by
  apply List.ext_getElem <;> simp [afterTurns]

theorem afterTurns_zero : afterTurns members 0 = members.map fun node => ⟨0, node⟩ := by
  apply List.ext_getElem <;> simp [afterTurns]

/-- In identity order the member on turn comes first among those with the fewest shards. -/
theorem least?_afterTurns (hsorted : members.Pairwise (· < ·)) (hpos : 0 < members.length) (i : Nat) :
    least? (afterTurns members i) = some ⟨(i / members.length : Nat), onTurn members hpos i⟩ := by
  have hlt := Nat.mod_lt i hpos
  rw [least?_eq_some_iff]
  constructor
  · refine List.mem_mapIdx.2 ⟨i % members.length, hlt, ?_⟩
    simp [onTurn]
  · intro u hu
    obtain ⟨k, hk, rfl⟩ := List.mem_mapIdx.1 hu
    simp only [Tally.key, Prod.Lex.toLex_le_toLex]
    -- Who has had a turn in this round holds one more; the others come no earlier in identity order.
    by_cases hturn : k < i % members.length
    · left
      rw [if_pos hturn]
      omega
    · right
      rw [if_neg hturn]
      refine ⟨rfl, ?_⟩
      rcases Nat.eq_or_lt_of_le (Nat.not_lt.1 hturn) with heq | hgt
      · simp [onTurn, heq]
      · exact (List.pairwise_iff_getElem.1 hsorted _ _ hlt hk hgt).le

theorem div_mod_succ {n : Nat} (hpos : 0 < n) (i : Nat) :
    (i + 1) / n = i / n ∧ (i + 1) % n = i % n + 1 ∨
      (i + 1) / n = i / n + 1 ∧ (i + 1) % n = 0 ∧ i % n + 1 = n := by
  have hi := Nat.div_add_mod i n
  rcases Nat.lt_or_ge (i % n + 1) n with h | h
  · left
    rw [Nat.div_mod_unique hpos]
    omega
  · right
    have hlt := Nat.mod_lt i hpos
    have hlast : i % n + 1 = n := by omega
    rw [← and_assoc, Nat.div_mod_unique hpos, Nat.mul_succ]
    omega

theorem count_afterTurns (hnodup : members.Nodup) (hpos : 0 < members.length) (i : Nat) :
    count (onTurn members hpos i) (afterTurns members i) = afterTurns members (i + 1) := by
  apply List.ext_getElem
  · simp [count, afterTurns]
  · intro k hk _
    have hk' : k < members.length := by simpa [count, afterTurns] using hk
    have hturn : members[k] = onTurn members hpos i ↔ k = i % members.length :=
      hnodup.getElem_inj_iff
    -- Either the round goes on or this was its last turn.
    have hstep := div_mod_succ hpos i
    simp only [count, afterTurns, List.getElem_map, List.getElem_mapIdx, hturn]
    split_ifs <;> simp only [Tally.mk.injEq, and_true] <;> omega

theorem scan_afterTurns (hsorted : members.Pairwise (· < ·)) (hpos : 0 < members.length) (i : Nat)
    (shards : List Shard) :
    scan (afterTurns members i) shards =
      .ok ((shards.zipIdx i).map fun e => (e.1, onTurn members hpos e.2)) := by
  induction shards generalizing i with
  | nil => rfl
  | cons shard shards ih =>
    rw [scan, least?_afterTurns hsorted hpos]
    simp only
    rw [count_afterTurns (hsorted.imp ne_of_lt) hpos, ih, List.zipIdx_cons, List.map_cons]
    rfl

/-- Starting from nothing the nodes take turns in identity order. -/
theorem deal_in_turns (hsorted : members.Pairwise (· < ·)) (hpos : 0 < members.length)
    {filled : List Tally} (hperm : filled.Perm (members.map fun node => ⟨0, node⟩)) (shards : List Shard) :
    deal filled shards = .ok (shards.zipIdx.map fun e => (e.1, onTurn members hpos e.2)) := by
  rw [← afterTurns_zero] at hperm
  rw [deal_eq_scan hperm, scan_afterTurns hsorted hpos]
  rw [nodes_afterTurns]
  exact hsorted.imp ne_of_lt

end Turns
end LeastLoaded
end Placement
