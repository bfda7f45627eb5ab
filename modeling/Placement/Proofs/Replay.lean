import Placement.Balancer
import Placement.Proofs.Loads

/-!
# Replaying moves

A move that fits changes the list of every node by `MovePlan.carry`, so a whole replay changes it by
`MovePlan.carryAll` and the load of a node changes by its departures and arrivals.
`Snapshot.exists_replay` says when a list of moves can be replayed: no shard moves twice and every move
starts at the node that hosts its shard.
-/

namespace Placement
set_option autoImplicit false

/-! ## Moves and the list of one node -/

namespace MovePlan

/-- What a move makes of the list of a node. -/
def carry (plan : MovePlan) (node : Node) (shards : List Shard) : List Shard :=
  if node = plan.source then shards.erase plan.shard
  else if node = plan.destination then shards ++ [plan.shard] else shards

def carryAll (plans : List MovePlan) (node : Node) (shards : List Shard) : List Shard :=
  plans.foldl (fun shards plan => plan.carry node shards) shards

/-- The shards that leave a node, in the order of the moves. -/
def departures (node : Node) (plans : List MovePlan) : List Shard :=
  (plans.filter fun plan => plan.source = node).map shard

def arrivals (node : Node) (plans : List MovePlan) : List Shard :=
  (plans.filter fun plan => plan.destination = node).map shard

/-- What moves make of the list of one node when no node both gives and receives: a node gives its first
shards away in their order, or lists new ones behind its own, or keeps its list. -/
structure Turns (plans : List MovePlan) (node : Node) (before now : List Shard) : Prop where
  moves : plans.countP (fun plan => plan.source = node ∨ plan.destination = node) =
    ((before.length : Int) - now.length).natAbs
  gives : node ∈ plans.map source →
    departures node plans = before.take (before.length - now.length) ∧
      now = before.drop (before.length - now.length)
  receives : node ∈ plans.map destination → now = before ++ arrivals node plans
  keeps : node ∉ plans.map source → node ∉ plans.map destination → now = before

@[simp] theorem departures_nil (node : Node) : departures node [] = [] := rfl

@[simp] theorem arrivals_nil (node : Node) : arrivals node [] = [] := rfl

theorem departures_cons (node : Node) (plan : MovePlan) (plans : List MovePlan) :
    departures node (plan :: plans) =
      if plan.source = node then plan.shard :: departures node plans else departures node plans := by
  by_cases h : plan.source = node <;> simp [departures, h]

theorem arrivals_cons (node : Node) (plan : MovePlan) (plans : List MovePlan) :
    arrivals node (plan :: plans) =
      if plan.destination = node then plan.shard :: arrivals node plans else arrivals node plans := by
  by_cases h : plan.destination = node <;> simp [arrivals, h]

theorem departures_append (node : Node) (plans more : List MovePlan) :
    departures node (plans ++ more) = departures node plans ++ departures node more := by
  simp [departures]

theorem arrivals_append (node : Node) (plans more : List MovePlan) :
    arrivals node (plans ++ more) = arrivals node plans ++ arrivals node more := by
  simp [arrivals]

theorem shard_mem_departures {plan : MovePlan} {plans : List MovePlan} (h : plan ∈ plans) :
    plan.shard ∈ departures plan.source plans :=
  List.mem_map_of_mem (List.mem_filter.2 ⟨h, decide_eq_true rfl⟩)

theorem shard_mem_arrivals {plan : MovePlan} {plans : List MovePlan} (h : plan ∈ plans) :
    plan.shard ∈ arrivals plan.destination plans :=
  List.mem_map_of_mem (List.mem_filter.2 ⟨h, decide_eq_true rfl⟩)

theorem filter_of_notMem {side : MovePlan → Node} {node : Node} {plans : List MovePlan}
    (h : node ∉ plans.map side) : (plans.filter fun plan => side plan = node) = [] := by
  rw [List.filter_eq_nil_iff]
  intro plan hm hside
  exact h (List.mem_map.2 ⟨plan, hm, of_decide_eq_true hside⟩)

theorem departures_of_notMem {node : Node} {plans : List MovePlan} (h : node ∉ plans.map source) :
    departures node plans = [] := by
  rw [departures, filter_of_notMem h, List.map_nil]

theorem arrivals_of_notMem {node : Node} {plans : List MovePlan} (h : node ∉ plans.map destination) :
    arrivals node plans = [] := by
  rw [arrivals, filter_of_notMem h, List.map_nil]

theorem countP_ends (node : Node) (plans : List MovePlan) :
    plans.countP (fun plan => plan.source = node ∨ plan.destination = node) =
      (departures node plans).length + (arrivals node plans).length := by
  induction plans with
  | nil => rfl
  | cons plan plans ih =>
    rw [List.countP_cons, ih, departures_cons, arrivals_cons]
    by_cases hs : plan.source = node
    · have hd : plan.destination ≠ node := fun h => plan.distinct (hs.trans h.symm)
      simp only [hs, hd, true_or, decide_true, if_true, if_false, List.length_cons]
      omega
    · by_cases hd : plan.destination = node
      · simp only [hs, hd, false_or, decide_true, if_true, if_false, List.length_cons]
        omega
      · simp [hs, hd]

theorem carry_of_ne {plan : MovePlan} {node : Node} (hs : node ≠ plan.source)
    (hd : node ≠ plan.destination) (shards : List Shard) : plan.carry node shards = shards := by
  rw [carry, if_neg hs, if_neg hd]

/-- A node that gives its first shards away in their order keeps the others in their order. -/
theorem carryAll_of_departures {node : Node} {plans : List MovePlan} {shards : List Shard} {k : Nat}
    (hleave : departures node plans = shards.take k) (hcome : arrivals node plans = []) :
    carryAll plans node shards = shards.drop k := by
  induction plans generalizing shards k with
  | nil =>
    rcases List.take_eq_nil_iff.1 hleave.symm with rfl | rfl <;> simp [carryAll]
  | cons plan plans ih =>
    rw [departures_cons] at hleave
    rw [arrivals_cons] at hcome
    have hd : plan.destination ≠ node := fun h => by simp [h] at hcome
    rw [if_neg hd] at hcome
    by_cases hs : plan.source = node
    · rw [if_pos hs] at hleave
      cases k with
      | zero => simp at hleave
      | succ k =>
        cases shards with
        | nil => simp at hleave
        | cons shard shards =>
          rw [List.take_succ_cons, List.cons.injEq] at hleave
          have hhead : plan.carry node (shard :: shards) = shards := by
            rw [carry, if_pos hs.symm, hleave.1, List.erase_cons_head]
          rw [carryAll, List.foldl_cons, hhead]
          exact ih hleave.2 hcome
    · rw [if_neg hs] at hleave
      rw [carryAll, List.foldl_cons, carry_of_ne (Ne.symm hs) (Ne.symm hd)]
      exact ih hleave hcome

/-- A node that gives nothing away lists what comes behind what it has. -/
theorem carryAll_of_arrivals {node : Node} {plans : List MovePlan} (hleave : departures node plans = [])
    (shards : List Shard) : carryAll plans node shards = shards ++ arrivals node plans := by
  induction plans generalizing shards with
  | nil => simp [carryAll]
  | cons plan plans ih =>
    rw [departures_cons] at hleave
    have hs : plan.source ≠ node := fun h => by simp [h] at hleave
    rw [if_neg hs] at hleave
    rw [arrivals_cons, carryAll, List.foldl_cons]
    by_cases hd : plan.destination = node
    · rw [if_pos hd, carry, if_neg (Ne.symm hs), if_pos hd.symm]
      refine (ih hleave _).trans ?_
      rw [List.append_assoc, List.singleton_append]
    · rw [if_neg hd, carry_of_ne (Ne.symm hs) (Ne.symm hd)]
      exact ih hleave _

/-- Every move has one end of a kind. -/
theorem sum_length_filter (side : MovePlan → Node) {nodes : Finset Node} {plans : List MovePlan}
    (h : ∀ plan ∈ plans, side plan ∈ nodes) :
    ∑ node ∈ nodes, (plans.filter fun plan => side plan = node).length = plans.length := by
  induction plans with
  | nil => simp
  | cons plan plans ih =>
    rw [List.forall_mem_cons] at h
    have hcount : ∀ node, ((plan :: plans).filter fun other => side other = node).length =
        (if side plan = node then 1 else 0) + (plans.filter fun other => side other = node).length := by
      intro node
      rw [List.filter_cons]
      by_cases hside : side plan = node <;> simp [hside, Nat.add_comm]
    simp only [hcount, Finset.sum_add_distrib, ih h.2, Finset.sum_ite_eq, if_pos h.1, List.length_cons]
    omega

/-- The same for the moves of one shard. -/
theorem sum_count_filter (side : MovePlan → Node) (moved : Shard) {nodes : Finset Node}
    {plans : List MovePlan} (h : ∀ plan ∈ plans, side plan ∈ nodes) :
    ∑ node ∈ nodes, ((plans.filter fun plan => side plan = node).map shard).count moved =
      (plans.map shard).count moved := by
  have hmoves : ∀ plan ∈ plans.filter fun plan => plan.shard = moved, side plan ∈ nodes :=
    fun plan hm => h plan (List.mem_of_mem_filter hm)
  have hcount : ∀ others : List MovePlan, (others.map shard).count moved =
      (others.filter fun plan => plan.shard = moved).length := by
    intro others
    rw [List.count_eq_countP, List.countP_map, List.countP_eq_length_filter]
    rfl
  simp only [hcount, List.filter_filter]
  rw [← sum_length_filter side hmoves]
  simp only [List.filter_filter, Bool.and_comm]

theorem sum_departures {nodes : Finset Node} {plans : List MovePlan}
    (h : ∀ plan ∈ plans, plan.source ∈ nodes) :
    ∑ node ∈ nodes, (departures node plans).length = plans.length := by
  simp only [departures, List.length_map]
  exact sum_length_filter source h

end MovePlan

/-! ## Steps and runs -/

namespace Snapshot
namespace Replay
open MovePlan

/-- A move fits when its destination is listed and its source owns and lists the shard; nothing but the
lists of both nodes and the owner of the shard changes. -/
theorem step_eq_ok_iff (r next : Replay) (plan : MovePlan) :
    r.step plan = .ok next ↔
      plan.destination ∈ r.hosted.keys ∧ r.owners.get? plan.shard = some plan.source ∧
        plan.shard ∈ r.hosted.row plan.source ∧
        next = ⟨r.hosted.mapValues plan.carry, r.owners.insert plan.shard plan.destination⟩ := by
  have hhosted : (r.hosted.modify plan.source (·.erase plan.shard)).modify plan.destination
      (· ++ [plan.shard]) = r.hosted.mapValues plan.carry := by
    rw [Table.modify_eq_mapValues, Table.modify_eq_mapValues, Table.mapValues_mapValues]
    congr 1
    funext node shards
    by_cases hs : node = plan.source
    · simp [carry, hs, plan.distinct]
    · by_cases hd : node = plan.destination <;> simp [carry, hd, plan.distinct.symm, hs]
  have hrow : (r.hosted.get? plan.source).getD [] = r.hosted.row plan.source := rfl
  rw [step, hrow, hhosted]
  simp only [Table.contains_iff]
  by_cases hdest : plan.destination ∈ r.hosted.keys
  · by_cases howner : r.owners.get? plan.shard = some plan.source
    · by_cases hshard : plan.shard ∈ r.hosted.row plan.source
      · simp [hdest, howner, hshard, eq_comm]
      · simp [hdest, howner, hshard]
    · simp [hdest, howner]
  · simp [hdest]

theorem run_cons_eq_ok_iff (r last : Replay) (plan : MovePlan) (plans : List MovePlan) :
    r.run (plan :: plans) = .ok last ↔ ∃ next, r.step plan = .ok next ∧ next.run plans = .ok last := by
  rw [run]
  cases r.step plan with
  | ok next => simp
  | error e => simp

theorem run_append (r : Replay) (plans more : List MovePlan) :
    r.run (plans ++ more) = (r.run plans).bind fun middle => middle.run more := by
  induction plans generalizing r with
  | nil => rfl
  | cons plan plans ih =>
    rw [List.cons_append, run, run]
    cases r.step plan with
    | ok next => exact ih next
    | error e => rfl

/-- What each move preserves, a run preserves. -/
theorem invariant_of_run {Inv : Replay → Prop}
    (hstep : ∀ {r next : Replay} {plan : MovePlan}, Inv r → r.step plan = .ok next → Inv next)
    {r last : Replay} {plans : List MovePlan} (hr : Inv r) (h : r.run plans = .ok last) : Inv last := by
  induction plans generalizing r with
  | nil =>
    cases h
    exact hr
  | cons plan plans ih =>
    obtain ⟨next, hnext, hrun⟩ := (run_cons_eq_ok_iff r last plan plans).1 h
    exact ih (hstep hr hnext) hrun

theorem hosted_of_run {r last : Replay} {plans : List MovePlan} (h : r.run plans = .ok last) :
    last.hosted = r.hosted.mapValues (carryAll plans) := by
  induction plans generalizing r with
  | nil =>
    cases h
    exact (Table.mapValues_self _).symm
  | cons plan plans ih =>
    obtain ⟨next, hstep, hrun⟩ := (run_cons_eq_ok_iff r last plan plans).1 h
    obtain ⟨-, -, -, rfl⟩ := (step_eq_ok_iff r next plan).1 hstep
    rw [ih hrun, Table.mapValues_mapValues]
    rfl

theorem keys_of_run {r last : Replay} {plans : List MovePlan} (h : r.run plans = .ok last) :
    last.hosted.keys = r.hosted.keys := by
  rw [hosted_of_run h, Table.keys_mapValues]

/-- The nodes of a move that is carried out are listed. -/
theorem ends_mem_of_run {r last : Replay} {plans : List MovePlan} (h : r.run plans = .ok last) :
    ∀ plan ∈ plans, plan.source ∈ r.hosted.keys ∧ plan.destination ∈ r.hosted.keys := by
  induction plans generalizing r with
  | nil => simp
  | cons plan plans ih =>
    obtain ⟨next, hstep, hrun⟩ := (run_cons_eq_ok_iff r last plan plans).1 h
    obtain ⟨hdest, -, hshard, rfl⟩ := (step_eq_ok_iff r next plan).1 hstep
    have hkeys := ih hrun
    rw [Table.keys_mapValues] at hkeys
    exact List.forall_mem_cons.2 ⟨⟨Table.mem_keys_of_mem_row hshard, hdest⟩, hkeys⟩

/-- What a node had and received is what it has and gave away. -/
theorem perm_of_run {r last : Replay} {plans : List MovePlan} (h : r.run plans = .ok last) {node : Node}
    (hnode : node ∈ r.hosted.keys) :
    (last.hosted.row node ++ departures node plans).Perm (r.hosted.row node ++ arrivals node plans) := by
  induction plans generalizing r with
  | nil =>
    cases h
    exact List.Perm.refl _
  | cons plan plans ih =>
    obtain ⟨next, hstep, hrun⟩ := (run_cons_eq_ok_iff r last plan plans).1 h
    obtain ⟨-, -, hshard, rfl⟩ := (step_eq_ok_iff r next plan).1 hstep
    have hrest := ih hrun (by rwa [Table.keys_mapValues])
    rw [Table.row_mapValues _ hnode] at hrest
    rw [departures_cons, arrivals_cons]
    by_cases hs : plan.source = node
    · have hd : plan.destination ≠ node := fun h => plan.distinct (hs.trans h.symm)
      subst hs
      rw [carry, if_pos rfl] at hrest
      rw [if_pos rfl, if_neg hd]
      have hback := (List.perm_cons_erase hshard).symm.append_right (arrivals plan.source plans)
      exact List.perm_middle.trans ((hrest.cons plan.shard).trans hback)
    · by_cases hd : plan.destination = node
      · rw [carry, if_neg (Ne.symm hs), if_pos hd.symm, List.append_assoc, List.singleton_append] at hrest
        rwa [if_neg hs, if_pos hd]
      · rw [carry_of_ne (Ne.symm hs) (Ne.symm hd)] at hrest
        rwa [if_neg hs, if_neg hd]

/-- The load of a node changes by its departures and arrivals. -/
theorem length_of_run {r last : Replay} {plans : List MovePlan} (h : r.run plans = .ok last) {node : Node}
    (hnode : node ∈ r.hosted.keys) :
    (last.hosted.row node).length + (departures node plans).length =
      (r.hosted.row node).length + (arrivals node plans).length := by
  have hlength := (perm_of_run h hnode).length_eq
  rwa [List.length_append, List.length_append] at hlength

/-! ## Replays that succeed -/

/-- Every owner lists what it owns. -/
def Tracked (r : Replay) : Prop :=
  ∀ shard node, r.owners.get? shard = some node → shard ∈ r.hosted.row node

theorem Tracked.step {r next : Replay} {plan : MovePlan} (hr : r.Tracked) (h : r.step plan = .ok next) :
    next.Tracked := by
  obtain ⟨hdest, -, -, rfl⟩ := (step_eq_ok_iff r next plan).1 h
  intro shard node howner
  simp only [Table.get?_insert] at howner
  split_ifs at howner with hshard
  · cases howner
    rw [Table.row_mapValues _ hdest, carry, if_neg plan.distinct.symm, if_pos rfl, hshard]
    simp
  · have hmem := hr shard node howner
    rw [Table.row_mapValues _ (Table.mem_keys_of_mem_row hmem), carry]
    split_ifs
    · exact (List.mem_erase_of_ne hshard).2 hmem
    · exact List.mem_append_left _ hmem
    · exact hmem

theorem Tracked.run {r last : Replay} {plans : List MovePlan} (hr : r.Tracked) (h : r.run plans = .ok last) :
    last.Tracked :=
  invariant_of_run Tracked.step hr h

/-- Moves of different shards fit one after another if each of them fits at the beginning. -/
theorem exists_run {r : Replay} {plans : List MovePlan} (hr : r.Tracked)
    (hshards : (plans.map MovePlan.shard).Nodup) (hdest : ∀ plan ∈ plans, plan.destination ∈ r.hosted.keys)
    (howner : ∀ plan ∈ plans, r.owners.get? plan.shard = some plan.source) :
    ∃ last, r.run plans = .ok last := by
  induction plans generalizing r with
  | nil => exact ⟨r, rfl⟩
  | cons plan plans ih =>
    rw [List.map_cons, List.nodup_cons] at hshards
    rw [List.forall_mem_cons] at hdest howner
    have hstep := (step_eq_ok_iff r _ plan).2
      ⟨hdest.1, howner.1, hr _ _ howner.1, rfl⟩
    have hothers : ∀ other ∈ plans, other.shard ≠ plan.shard :=
      fun other hm he => hshards.1 (he ▸ List.mem_map_of_mem hm)
    obtain ⟨last, hrun⟩ := ih (hr.step hstep) hshards.2
      (fun other hm => by rw [Table.keys_mapValues]; exact hdest.2 other hm)
      (fun other hm => by rw [Table.get?_insert, if_neg (hothers other hm)]; exact howner.2 other hm)
    exact ⟨last, (run_cons_eq_ok_iff r last plan plans).2 ⟨_, hstep, hrun⟩⟩

end Replay

/-! ## Owners -/

theorem mem_held_of_owner {s : Snapshot} {shard : Shard} {node : Node}
    (h : s.owners.get? shard = some node) : shard ∈ s.held node := by
  obtain ⟨n, -, hm⟩ := List.mem_flatMap.1 (Table.mem_of_get?_ofList h)
  obtain ⟨x, hx, he⟩ := List.mem_map.1 hm
  cases he
  exact hx

theorem exists_owner {s : Snapshot} {shard : Shard} {node : Node} (h : shard ∈ s.held node) :
    ∃ owner, s.owners.get? shard = some owner :=
  Table.exists_get?_ofList (List.mem_flatMap.2
    ⟨node, mem_nodes_of_mem_held h, List.mem_map.2 ⟨shard, h, rfl⟩⟩)

theorem tracked_start (s : Snapshot) : Replay.Tracked ⟨s.hosted, s.owners⟩ :=
  fun _ _ h => mem_held_of_owner h

namespace WellFormed
variable {s : Snapshot}

theorem held_nodup (hs : s.WellFormed) (node : Node) : (s.held node).Nodup := by
  rw [held, Table.row]
  cases hrow : s.hosted.get? node with
  | none => exact List.nodup_nil
  | some shards =>
    have hmem : shards ∈ s.hosted.values :=
      List.mem_map_of_mem (f := Prod.snd) ((Table.get?_eq_some_iff _ _ _).1 hrow)
    exact (List.nodup_flatten.1 hs).1 shards hmem

/-- A shard is hosted by one node only. -/
theorem eq_of_mem_held (hs : s.WellFormed) {shard : Shard} {a b : Node} (ha : shard ∈ s.held a)
    (hb : shard ∈ s.held b) : a = b := by
  by_contra hne
  have hea := (Table.get?_eq_some_iff _ _ _).1
    (Table.get?_of_mem_keys (Table.mem_keys_of_mem_row ha))
  have heb := (Table.get?_eq_some_iff _ _ _).1
    (Table.get?_of_mem_keys (Table.mem_keys_of_mem_row hb))
  have hpair : s.hosted.entries.Pairwise fun e f => e.2.Disjoint f.2 :=
    List.pairwise_map.1 (List.nodup_flatten.1 hs).2
  have : Std.Symm fun e f : Node × List Shard => e.2.Disjoint f.2 := ⟨fun _ _ h => h.symm⟩
  exact hpair.forall hea heb (fun h => hne (congrArg Prod.fst h)) ha hb

theorem owner_eq (hs : s.WellFormed) {shard : Shard} {node : Node} (h : shard ∈ s.held node) :
    s.owners.get? shard = some node := by
  obtain ⟨owner, howner⟩ := exists_owner h
  rw [howner, hs.eq_of_mem_held (mem_held_of_owner howner) h]

end WellFormed

/-! ## Replaying on a snapshot -/

section
variable {s after : Snapshot} {plans : List MovePlan}
open MovePlan

theorem apply_result (s : Snapshot) (plans : List MovePlan) : (s.apply plans).result = s.replay plans := by
  rw [apply]
  cases s.replay plans <;> rfl

theorem replay_eq_ok_iff : s.replay plans = .ok after ↔
    ∃ last, Replay.run ⟨s.hosted, s.owners⟩ plans = .ok last ∧ after = ⟨last.hosted⟩ := by
  rw [replay]
  cases Replay.run ⟨s.hosted, s.owners⟩ plans with
  | ok last => simp [Except.map, eq_comm]
  | error e => simp [Except.map]

theorem replay_nil (s : Snapshot) : s.replay [] = .ok s := rfl

theorem keys_of_replay (h : s.replay plans = .ok after) : after.hosted.keys = s.hosted.keys := by
  obtain ⟨last, hrun, rfl⟩ := replay_eq_ok_iff.1 h
  exact Replay.keys_of_run hrun

theorem nodes_of_replay (h : s.replay plans = .ok after) : after.nodes = s.nodes := by
  rw [nodes, keys_of_replay h]
  rfl

theorem held_of_replay (h : s.replay plans = .ok after) {node : Node} (hnode : node ∈ s.nodes) :
    after.held node = carryAll plans node (s.held node) := by
  obtain ⟨last, hrun, rfl⟩ := replay_eq_ok_iff.1 h
  rw [held, Replay.hosted_of_run hrun, Table.row_mapValues _ ((s.mem_nodes_iff node).1 hnode)]
  rfl

theorem ends_mem_of_replay (h : s.replay plans = .ok after) :
    ∀ plan ∈ plans, plan.source ∈ s.members ∧ plan.destination ∈ s.members := by
  obtain ⟨last, hrun, rfl⟩ := replay_eq_ok_iff.1 h
  simpa [mem_nodes_iff] using Replay.ends_mem_of_run hrun

theorem count_of_replay (h : s.replay plans = .ok after) {node : Node} (hnode : node ∈ s.nodes) :
    after.count node + (departures node plans).length =
      s.count node + (arrivals node plans).length := by
  obtain ⟨last, hrun, rfl⟩ := replay_eq_ok_iff.1 h
  exact Replay.length_of_run hrun ((s.mem_nodes_iff node).1 hnode)

/-- The load of a node goes up with every move to it and down with every move from it. -/
theorem load_of_replay (h : s.replay plans = .ok after) {node : Node} (hnode : node ∈ s.nodes) :
    ∃ before now : Nat, s.load node = .ok before ∧ after.load node = .ok now ∧
      (now : Int) = before + (arrivals node plans).length - (departures node plans).length := by
  have hcount := count_of_replay h hnode
  have hafter : node ∈ after.nodes := by rwa [nodes_of_replay h]
  exact ⟨s.count node, after.count node, load_of_mem hnode, load_of_mem hafter, by omega⟩

theorem members_of_replay (h : s.replay plans = .ok after) : after.members = s.members := by
  rw [members, nodes_of_replay h, members]

theorem nodeCount_of_replay (h : s.replay plans = .ok after) : after.nodeCount = s.nodeCount := by
  rw [nodeCount_eq_card, members_of_replay h, nodeCount_eq_card]

theorem count_shard_of_replay (h : s.replay plans = .ok after) (shard : Shard) {node : Node}
    (hnode : node ∈ s.nodes) :
    (after.held node).count shard + (departures node plans).count shard =
      (s.held node).count shard + (arrivals node plans).count shard := by
  obtain ⟨last, hrun, rfl⟩ := replay_eq_ok_iff.1 h
  have hperm := Replay.perm_of_run hrun ((s.mem_nodes_iff node).1 hnode)
  rw [← List.count_append, ← List.count_append]
  exact hperm.count_eq shard

/-- No shard gets lost and none comes up. -/
theorem shards_perm_of_replay (h : s.replay plans = .ok after) :
    after.hosted.values.flatten.Perm s.hosted.values.flatten := by
  rw [List.perm_iff_count]
  intro shard
  have hends := ends_mem_of_replay h
  have hsum : ∑ node ∈ s.members, ((after.held node).count shard + (departures node plans).count shard) =
      ∑ node ∈ s.members, ((s.held node).count shard + (arrivals node plans).count shard) :=
    Finset.sum_congr rfl fun node hnode => count_shard_of_replay h shard ((s.mem_members node).1 hnode)
  have hleave := sum_count_filter source shard fun plan hm => (hends plan hm).1
  have hcome := sum_count_filter destination shard fun plan hm => (hends plan hm).2
  simp only [Finset.sum_add_distrib, departures, arrivals, hleave, hcome, Nat.add_right_cancel_iff] at hsum
  rw [count_values, count_values, members_of_replay h, hsum]

theorem totalLoad_of_replay (h : s.replay plans = .ok after) : after.totalLoad = s.totalLoad :=
  (shards_perm_of_replay h).length_eq

theorem WellFormed.of_replay (hs : s.WellFormed) (h : s.replay plans = .ok after) : after.WellFormed :=
  (shards_perm_of_replay h).nodup_iff.2 hs

/-- Moves of different shards can be replayed on a well-formed snapshot if each of them starts where its
shard is. -/
theorem exists_replay (hs : s.WellFormed) (hshards : (plans.map MovePlan.shard).Nodup)
    (hdest : ∀ plan ∈ plans, plan.destination ∈ s.nodes)
    (hsource : ∀ plan ∈ plans, plan.shard ∈ s.held plan.source) :
    ∃ after, s.replay plans = .ok after := by
  obtain ⟨last, hrun⟩ := Replay.exists_run s.tracked_start hshards
    (fun plan hm => (s.mem_nodes_iff _).1 (hdest plan hm)) (fun plan hm => hs.owner_eq (hsource plan hm))
  exact ⟨⟨last.hosted⟩, replay_eq_ok_iff.2 ⟨last, hrun, rfl⟩⟩

end

end Snapshot
end Placement
