import Placement.Proofs.Numeral
import Placement.Proofs.Reaching

/-!
# Balancing

The moves that a planner finds can be replayed and leave every node with the floor or the ceiling of the
average load, and then there is nothing more to do.  A slop above zero may keep a planner from moving
anything, but never lets it stop halfway.
-/

namespace Placement
set_option autoImplicit false

/-! ## Slops -/

def Double.isFinite : Double → Bool
  | .finite _ _ => true
  | _ => false

/-- Finite doubles have an exact value, and so have whole numbers unless they are too long to be written. -/
def Slop.isExact : Slop → Bool
  | .whole n => decide (Numeral.Writable n)
  | .double d => d.isFinite

namespace Slop
variable {slop : Slop}

theorem isNegative_whole {n : ℤ} (h : 0 ≤ n) : (whole n).isNegative = false := decide_eq_false (not_lt.2 h)

theorem exact_whole_of_writable {n : ℤ} (h : Numeral.Writable n) : (whole n).exact = .ok n := by
  rw [exact, Numeral.written_of_writable h]

theorem exact_whole_of_not_writable {n : ℤ} (h : ¬ Numeral.Writable n) :
    (whole n).exact = .error (.unwritable .digits) := by
  rw [exact, Numeral.written_of_not_writable h]

theorem isExact_iff : slop.isExact = true ↔ ∃ q, slop.exact = .ok q := by
  cases slop with
  | whole n =>
    by_cases h : Numeral.Writable n
    · exact iff_of_true (decide_eq_true h) ⟨n, exact_whole_of_writable h⟩
    · rw [isExact, decide_eq_true_eq, exact_whole_of_not_writable h]
      exact iff_of_false h nofun
  | double d =>
    cases d with
    | nan => exact iff_of_false nofun nofun
    | infinite negative => exact iff_of_false nofun nofun
    | finite negative code => exact iff_of_true rfl ⟨_, rfl⟩

theorem isExact_of_isZero (h : slop.isZero = true) : slop.isExact = true := by
  cases slop with
  | whole n =>
    obtain rfl : n = 0 := of_decide_eq_true h
    decide +kernel
  | double d =>
    cases d with
    | nan => cases h
    | infinite negative => cases h
    | finite negative code => rfl

theorem exists_tolerates (h : slop.isExact = true) (summary : LoadSummary) :
    ∃ b, slop.tolerates summary = .ok b := by
  obtain ⟨q, hq⟩ := isExact_iff.1 h
  rw [tolerates, hq]
  split_ifs
  · exact ⟨true, rfl⟩
  · exact ⟨false, rfl⟩
  · exact ⟨withinBounds summary q, rfl⟩

theorem not_isBalanced_of_tolerates {summary : LoadSummary} (h : slop.tolerates summary = .ok false) :
    ¬ summary.isBalanced = true := by
  intro hbalanced
  rw [tolerates, if_pos hbalanced] at h
  cases h

theorem isBalanced_of_tolerates {summary : LoadSummary} (h : slop.tolerates summary = .ok true)
    (hzero : slop.isZero = true) : summary.isBalanced = true := by
  by_contra hbalanced
  rw [tolerates, if_neg hbalanced, if_pos (by rw [hzero, Bool.or_true])] at h
  cases h

end Slop

namespace Snapshot
variable {s after : Snapshot} {plans : List MovePlan}

/-! ## Balanced loads -/

/-- Every node has the floor or the ceiling of the average load of a snapshot. -/
def IsEvenFor (after s : Snapshot) : Prop :=
  ∀ node ∈ after.nodes, after.load node = .ok s.floorLoad ∨ after.load node = .ok s.ceilLoad

structure IsBalancedFor (after s : Snapshot) : Prop where
  even : after.IsEvenFor s
  ceilings : ¬ s.nodeCount ∣ s.totalLoad →
    after.nodes.countP (fun node => after.load node = .ok s.ceilLoad) = s.totalLoad % s.nodeCount

theorem isEvenFor_iff (after s : Snapshot) :
    after.IsEvenFor s ↔
      ∀ node ∈ after.nodes, after.count node = s.floorLoad ∨ after.count node = s.ceilLoad := by
  unfold IsEvenFor
  apply forall₂_congr
  intro node hnode
  rw [load_of_mem hnode, Except.ok.injEq, Except.ok.injEq]

/-- The balance test of the outcome of a replay asks for the averages of the start. -/
theorem isBalanced_iff_isEvenFor (h : s.replay plans = .ok after) :
    after.summary.isBalanced = true ↔ after.IsEvenFor s := by
  have hfloor : after.floorLoad = s.floorLoad := by
    rw [floorLoad, totalLoad_of_replay h, nodeCount_of_replay h, floorLoad]
  have hceil : after.ceilLoad = s.ceilLoad := by
    rw [ceilLoad, totalLoad_of_replay h, nodeCount_of_replay h, ceilLoad]
  have hwidth := s.ceilLoad_eq
  rw [isBalanced_summary_iff, isEvenFor_iff, hfloor, hceil]
  apply forall₂_congr
  intro node _
  split_ifs at hwidth <;> omega

/-- Even loads are the floor with one more shard for as many nodes as shards are left over. -/
theorem IsEvenFor.exists_lifted (heven : after.IsEvenFor s) (h : s.replay plans = .ok after) :
    ∃ top ⊆ s.members, top.card = s.leftover ∧
      ∀ node ∈ s.nodes, after.count node = s.lifted top node := by
  have hsubset := Finset.filter_subset (fun node => after.count node = s.floorLoad + 1) s.members
  have hwidth := s.ceilLoad_eq
  rw [isEvenFor_iff, nodes_of_replay h] at heven
  have hcount : ∀ node ∈ s.nodes, after.count node =
      s.lifted (s.members.filter fun node => after.count node = s.floorLoad + 1) node := by
    intro node hnode
    have hload := heven node hnode
    simp only [lifted, Finset.mem_filter, mem_members, hnode, true_and]
    split_ifs at hwidth ⊢ <;> omega
  refine ⟨_, hsubset, ?_, hcount⟩
  rw [← sum_lifted_eq_iff hsubset, ← totalLoad_of_replay h, totalLoad_eq_sum, members_of_replay h]
  exact Finset.sum_congr rfl fun node hnode => (hcount node ((s.mem_members node).1 hnode)).symm

/-- With even loads the total leaves no choice of how many nodes have the ceiling. -/
theorem IsEvenFor.isBalancedFor (heven : after.IsEvenFor s) (h : s.replay plans = .ok after) :
    after.IsBalancedFor s := by
  refine ⟨heven, fun hdvd => ?_⟩
  obtain ⟨top, hsubset, hcard, hcount⟩ := heven.exists_lifted h
  have hleft : s.leftover ≠ 0 := fun hzero => hdvd (Nat.dvd_of_mod_eq_zero hzero)
  rw [countP_nodes, members_of_replay h]
  refine (congrArg Finset.card ?_).trans hcard
  ext node
  rw [Finset.mem_filter]
  constructor
  · rintro ⟨hnode, hload⟩
    rw [mem_members] at hnode
    have hmem : node ∈ after.nodes := by rwa [nodes_of_replay h]
    rw [load_of_mem hmem, Except.ok.injEq, hcount node hnode, ceilLoad_of_leftover hleft, lifted] at hload
    by_contra hnot
    rw [if_neg hnot] at hload
    omega
  · intro htop
    have hnode := (s.mem_members node).1 (hsubset htop)
    have hmem : node ∈ after.nodes := by rwa [nodes_of_replay h]
    refine ⟨hsubset htop, ?_⟩
    rw [load_of_mem hmem, hcount node hnode, ceilLoad_of_leftover hleft, lifted, if_pos htop]

/-- Moves that lift as many nodes as shards are left over end in even loads. -/
theorem Reaches.isEvenFor {top : Finset Node} (h : s.Reaches (s.lifted top) plans)
    (hcard : top.card = s.leftover) (hafter : s.replay plans = .ok after) : after.IsEvenFor s := by
  have hwidth := s.ceilLoad_eq
  rw [isEvenFor_iff, nodes_of_replay hafter]
  intro node hnode
  rw [h.count_after hafter hnode, lifted]
  by_cases htop : node ∈ top
  · have hleft : s.leftover ≠ 0 := by
      rw [← hcard]
      exact Finset.card_ne_zero_of_mem htop
    rw [if_neg hleft] at hwidth
    rw [if_pos htop]
    omega
  · rw [if_neg htop]
    omega

theorem isBalanced_of_trivial (h : s.nodeCount = 0 ∨ s.nodeCount = 1 ∨ s.totalLoad = 0) :
    s.summary.isBalanced = true := by
  rw [isBalanced_summary_iff]
  intro node hnode
  have hsum := s.totalLoad_eq_sum
  have hmem := (s.mem_members node).2 hnode
  rcases h with hcount | hcount | htotal
  · rw [nodeCount_eq_card, Finset.card_eq_zero] at hcount
    rw [hcount] at hmem
    exact absurd hmem (Finset.notMem_empty node)
  · have hcard := hcount
    rw [nodeCount_eq_card, Finset.card_eq_one] at hcard
    obtain ⟨only, honly⟩ := hcard
    rw [honly, Finset.mem_singleton] at hmem
    rw [honly, Finset.sum_singleton, ← hmem] at hsum
    rw [floorLoad, ceilLoad, hcount, Nat.div_one, Nat.div_one]
    omega
  · have hzero := (Finset.sum_eq_zero_iff.1 (hsum.symm.trans htotal)) node hmem
    have hfloor : s.floorLoad = 0 := by rw [floorLoad, htotal, Nat.zero_div]
    omega

/-- Four hosts with three, two, no and no shards. -/
def lopsided : Snapshot :=
  .ofList [(⟨"a", 9100, 1⟩, [⟨"t", [], [], 0⟩, ⟨"t", [], [], 1⟩, ⟨"t", [], [], 2⟩]),
    (⟨"b", 9100, 1⟩, [⟨"t", [], [], 3⟩, ⟨"t", [], [], 4⟩]), (⟨"c", 9100, 1⟩, []), (⟨"d", 9100, 1⟩, [])]

theorem reaches_nil (s : Snapshot) : s.Reaches s.count [] where
  leaving := by simp
  coming := by simp
  source_mem := by simp
  destination_mem := by simp

theorem exists_moves_lifted {top : Finset Node} (hsubset : top ⊆ s.members)
    (hcard : top.card = s.leftover) (loud : Bool) :
    ∃ plans, (Planner.movesFor loud (s.standingsFor (s.lifted top))).result = .ok plans ∧
      s.Reaches (s.lifted top) plans :=
  s.exists_moves _ loud ((sum_lifted_eq_iff hsubset).2 hcard)

end Snapshot

/-! ## Planning and replaying -/

namespace Planner
variable {p : Planner} {s : Snapshot}

/-- The planner that tolerates no imbalance. -/
def strict : Planner := ⟨.whole 0, false, rfl⟩

theorem strict_isExact : strict.slop.isExact = true := Slop.isExact_of_isZero rfl

/-- The planner whose slop is the least whole number without an exact value. -/
def boundless : Planner where
  slop := .whole Numeral.overlong
  logPlans := false
  slop_bound := Slop.isNegative_whole (le_trans (by decide) Numeral.two_le_overlong)

theorem balance_of_isBalanced (p : Planner) (hbalanced : s.summary.isBalanced = true) :
    (p.balance s).result = .ok [] := by
  have htolerates : p.slop.tolerates s.summary = .ok true := by rw [Slop.tolerates, if_pos hbalanced]
  by_cases hnone : s.nodeCount = 0
  · simp [balance, hnone]
  · by_cases htrivial : s.nodeCount = 1 ∨ s.summary.shardCount = 0
    · simp [balance, hnone, htrivial]
    · simp [balance, hnone, htrivial, htolerates]

/-- The early exits for no nodes, one node and no shards are for balanced clusters only. -/
theorem balance_of_not_isBalanced (p : Planner) (hbalanced : ¬ s.summary.isBalanced = true) :
    (p.balance s).result = match p.slop.tolerates s.summary with
      | .error e => .error (.inexactSlop e)
      | .ok true => .ok []
      | .ok false => (movesFor p.logPlans (standings s)).result := by
  have htrivial := mt Snapshot.isBalanced_of_trivial hbalanced
  rw [not_or, ← Int.natCast_eq_zero (n := s.totalLoad), ← s.summary_shardCount] at htrivial
  unfold balance
  simp only [if_neg htrivial.1, if_neg htrivial.2]
  cases p.slop.tolerates s.summary with
  | error e => rfl
  | ok within =>
    cases within with
    | true => rfl
    | false => cases (movesFor p.logPlans (standings s)).result <;> simp

/-- Moves to the targets of a snapshot can always be found. -/
theorem exists_movesFor (loud : Bool) (s : Snapshot) :
    ∃ plans, (movesFor loud (standings s)).result = .ok plans ∧ s.Reaches s.goal plans := by
  rw [Snapshot.standings_eq]
  exact Snapshot.exists_moves_lifted s.raised_subset s.card_raised loud

/-- A planner whose slop has an exact value always answers. -/
theorem exists_balance (hslop : p.slop.isExact = true) (s : Snapshot) :
    ∃ plans, (p.balance s).result = .ok plans := by
  by_cases hbalanced : s.summary.isBalanced = true
  · exact ⟨[], p.balance_of_isBalanced hbalanced⟩
  · obtain ⟨b, htolerates⟩ := Slop.exists_tolerates hslop s.summary
    rw [balance_of_not_isBalanced p hbalanced, htolerates]
    cases b with
    | true => exact ⟨[], rfl⟩
    | false =>
      obtain ⟨plans, hplans, -⟩ := exists_movesFor p.logPlans s
      exact ⟨plans, hplans⟩

/-- An answer is no moves at all or moves that reach the targets. -/
theorem balance_outcome {plans : List MovePlan} (h : (p.balance s).result = .ok plans) :
    (plans = [] ∧ (p.slop.isZero = true → s.summary.isBalanced = true)) ∨ s.Reaches s.goal plans := by
  by_cases hbalanced : s.summary.isBalanced = true
  · rw [p.balance_of_isBalanced hbalanced] at h
    exact .inl ⟨(Except.ok.inj h).symm, fun _ => hbalanced⟩
  · rw [p.balance_of_not_isBalanced hbalanced] at h
    cases htolerates : p.slop.tolerates s.summary with
    | error e =>
      rw [htolerates] at h
      cases h
    | ok b =>
      rw [htolerates] at h
      cases b with
      | true => exact .inl ⟨(Except.ok.inj h).symm, Slop.isBalanced_of_tolerates htolerates⟩
      | false =>
        obtain ⟨moves, hmoves, hreaches⟩ := exists_movesFor p.logPlans s
        cases hmoves.symm.trans h
        exact .inr hreaches

/-- Whatever a planner answers, its moves take the nodes to some loads and can be replayed. -/
theorem exists_goal {plans : List MovePlan} (h : (p.balance s).result = .ok plans) (hs : s.WellFormed) :
    ∃ goal after, (s.apply plans).result = .ok after ∧ s.Reaches goal plans ∧ s.replay plans = .ok after := by
  obtain ⟨rfl, -⟩ | hreaches := p.balance_outcome h
  · exact ⟨s.count, s, rfl, s.reaches_nil, s.replay_nil⟩
  · obtain ⟨after, hafter⟩ := hreaches.exists_replay hs
    exact ⟨s.goal, after, (s.apply_result plans).trans hafter, hreaches, hafter⟩

theorem balance_balances (p : Planner) (s : Snapshot) (hs : s.WellFormed) :
    (p.slop.isExact = true → ∃ plans, (p.balance s).result = .ok plans) ∧
    ∀ plans, (p.balance s).result = .ok plans → ∃ after, (s.apply plans).result = .ok after ∧
      (plans ≠ [] → after.IsBalancedFor s) ∧ (p.balance after).result = .ok [] ∧
      (p.slop.isZero = true → after.IsBalancedFor s) := by
  refine ⟨fun hslop => p.exists_balance hslop s, fun plans hplans => ?_⟩
  obtain ⟨rfl, hzero⟩ | hreaches := p.balance_outcome hplans
  · refine ⟨s, rfl, fun hne => absurd rfl hne, hplans, fun hslop0 => ?_⟩
    have heven := (Snapshot.isBalanced_iff_isEvenFor s.replay_nil).1 (hzero hslop0)
    exact heven.isBalancedFor s.replay_nil
  · obtain ⟨after, hafter⟩ := hreaches.exists_replay hs
    have heven := hreaches.isEvenFor s.card_raised hafter
    have hbalanced := heven.isBalancedFor hafter
    have hagain := p.balance_of_isBalanced ((Snapshot.isBalanced_iff_isEvenFor hafter).2 heven)
    exact ⟨after, (s.apply_result plans).trans hafter, fun _ => hbalanced, hagain, fun _ => hbalanced⟩

theorem balance_balances_lopsided :
    Planner.strict.slop.isExact = true ∧ Snapshot.lopsided.WellFormed ∧
      ∃ plans after, (Planner.strict.balance .lopsided).result = .ok plans ∧
        (Snapshot.lopsided.apply plans).result = .ok after ∧ after.IsBalancedFor .lopsided ∧
        (Planner.strict.balance after).result = .ok [] := by
  have hs : Snapshot.lopsided.WellFormed := by decide
  obtain ⟨hanswers, hbalances⟩ := balance_balances Planner.strict .lopsided hs
  obtain ⟨plans, hplans⟩ := hanswers strict_isExact
  obtain ⟨after, hafter, -, hagain, hzero⟩ := hbalances plans hplans
  exact ⟨strict_isExact, hs, plans, after, hplans, hafter, hzero rfl, hagain⟩

/-! ## What becomes of the lists -/

theorem balance_turns (p : Planner) (s : Snapshot) (hs : s.WellFormed) :
    (p.slop.isExact = true → ∃ plans, (p.balance s).result = .ok plans) ∧
    ∀ plans, (p.balance s).result = .ok plans → ∃ after, (s.apply plans).result = .ok after ∧
      (∀ plan ∈ plans, plan.source ∈ s.nodes ∧ plan.destination ∈ s.nodes) ∧
      (∀ a ∈ plans, ∀ b ∈ plans, a.source ≠ b.destination) ∧ (plans.map MovePlan.shard).Nodup ∧
      after.nodes = s.nodes ∧
      ∀ node ∈ s.nodes, ∃ before now, s.shardsOn node = .ok before ∧ after.shardsOn node = .ok now ∧
        MovePlan.Turns plans node before now := by
  refine ⟨fun hslop => p.exists_balance hslop s, fun plans hplans => ?_⟩
  obtain ⟨goal, after, happly, hreaches, hafter⟩ := p.exists_goal hplans hs
  have hnodes := Snapshot.nodes_of_replay hafter
  refine ⟨after, happly, ?_, ?_, hreaches.shards_nodup hs, hnodes, ?_⟩
  · intro plan hm
    exact ⟨hreaches.source_mem plan hm, hreaches.destination_mem plan hm⟩
  · intro a ha b hb
    exact hreaches.source_ne_destination ha hb
  · intro node hnode
    have hmem : node ∈ after.nodes := by rwa [hnodes]
    exact ⟨s.held node, after.held node, Snapshot.shardsOn_of_mem hnode, Snapshot.shardsOn_of_mem hmem,
      hreaches.turns hafter hnode⟩

theorem balance_turns_lopsided :
    Planner.strict.slop.isExact = true ∧ Snapshot.lopsided.WellFormed ∧
      ∃ plans after, (Planner.strict.balance .lopsided).result = .ok plans ∧
        (Snapshot.lopsided.apply plans).result = .ok after ∧ (plans.map MovePlan.shard).Nodup ∧
        ∀ node ∈ Snapshot.lopsided.nodes, ∃ before now, Snapshot.lopsided.shardsOn node = .ok before ∧
          after.shardsOn node = .ok now ∧ MovePlan.Turns plans node before now := by
  have hs : Snapshot.lopsided.WellFormed := by decide
  obtain ⟨hanswers, hplanned⟩ := balance_turns Planner.strict .lopsided hs
  obtain ⟨plans, hplans⟩ := hanswers strict_isExact
  obtain ⟨after, hafter, -, -, hshards, -, hturns⟩ := hplanned plans hplans
  exact ⟨strict_isExact, hs, plans, after, hplans, hafter, hshards, hturns⟩

end Planner
end Placement
