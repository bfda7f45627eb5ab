import Placement.Planner
import Placement.Proofs.Queue
import Placement.Proofs.Replay

/-!
# Pairing nodes above and below their targets

`Planner.Settles` says what a list of moves does for a list of standings: every node gives away its first
`surplus` shards in their order and receives `deficit` many.  `Planner.movesFor_settles` finds such moves
whenever the surpluses and the deficits have one sum and no node has to give away more than it has.  Which
of several nodes is served first makes no difference for this, so nothing here depends on the order in which
the queues hand out their members.
-/

namespace Placement
set_option autoImplicit false

/-! ## Surplus and deficit -/

namespace Standing

/-- How many shards a node lacks. -/
def deficit (s : Standing) : Nat := (s.target - s.load).toNat

theorem isAbove_iff (s : Standing) : s.isAbove = true ↔ 0 < s.surplus := by
  rw [isAbove, decide_eq_true_eq, surplus]
  omega

theorem isBelow_iff (s : Standing) : s.isBelow = true ↔ 0 < s.deficit := by
  rw [isBelow, decide_eq_true_eq, deficit]
  omega

theorem deficit_of_surplus {s : Standing} (h : 0 < s.surplus) : s.deficit = 0 := by
  unfold surplus deficit at *
  omega

theorem surplus_of_deficit {s : Standing} (h : 0 < s.deficit) : s.surplus = 0 := by
  unfold surplus deficit at *
  omega

theorem surplus_give {s : Standing} (h : 0 < s.surplus) (rest : List Shard) :
    (s.give rest).surplus + 1 = s.surplus := by
  simp only [surplus, give] at *
  omega

theorem deficit_give {s : Standing} (h : 0 < s.surplus) (rest : List Shard) : (s.give rest).deficit = 0 := by
  simp only [surplus, deficit, give] at *
  omega

theorem deficit_take {s : Standing} (h : 0 < s.deficit) : s.take.deficit + 1 = s.deficit := by
  simp only [deficit, Standing.take] at *
  omega

theorem surplus_take {s : Standing} (h : 0 < s.deficit) : s.take.surplus = 0 := by
  simp only [surplus, deficit, Standing.take] at *
  omega

end Standing

namespace Planner
open MovePlan

/-! ## Standings and moves that settle them -/

/-- Nodes that can reach their targets among themselves. -/
structure Solvable (all : List Standing) : Prop where
  nodes_nodup : (all.map Standing.node).Nodup
  stocked : ∀ s ∈ all, s.surplus ≤ s.shards.length
  even : (all.map Standing.surplus).sum = (all.map Standing.deficit).sum

structure Settles (all : List Standing) (plans : List MovePlan) : Prop where
  leaving : ∀ s ∈ all, departures s.node plans = s.shards.take s.surplus
  coming : ∀ s ∈ all, (arrivals s.node plans).length = s.deficit
  source_mem : ∀ plan ∈ plans, plan.source ∈ all.map Standing.node
  destination_mem : ∀ plan ∈ plans, plan.destination ∈ all.map Standing.node

theorem Solvable.perm {all others : List Standing} (h : Solvable all) (hp : all.Perm others) :
    Solvable others where
  nodes_nodup := (hp.map _).nodup_iff.1 h.nodes_nodup
  stocked s hs := h.stocked s (hp.mem_iff.2 hs)
  even := by rw [← (hp.map _).sum_eq, ← (hp.map _).sum_eq, h.even]

theorem Settles.perm {all others : List Standing} {plans : List MovePlan} (h : Settles all plans)
    (hp : all.Perm others) : Settles others plans where
  leaving s hs := h.leaving s (hp.mem_iff.2 hs)
  coming s hs := h.coming s (hp.mem_iff.2 hs)
  source_mem plan hm := (hp.map _).mem_iff.1 (h.source_mem plan hm)
  destination_mem plan hm := (hp.map _).mem_iff.1 (h.destination_mem plan hm)

/-- When nobody has to give, nobody lacks anything either. -/
theorem Solvable.settles_nil {all : List Standing} (h : Solvable all)
    (hzero : (all.map Standing.surplus).sum = 0) : Settles all [] where
  leaving s hs := by
    have hs0 := List.sum_eq_zero_iff.1 hzero s.surplus (List.mem_map_of_mem hs)
    rw [hs0, List.take_zero, departures_nil]
  coming s hs := by
    have hs0 := List.sum_eq_zero_iff.1 (h.even.symm.trans hzero) s.deficit (List.mem_map_of_mem hs)
    rw [hs0, arrivals_nil, List.length_nil]
  source_mem := by simp
  destination_mem := by simp

/-! ## One move -/

section Step
variable {source destination : Standing} {others : List Standing} {shard : Shard} {rest : List Shard}

/-- After a move from a node above its target to one below the standings are still solvable. -/
theorem Solvable.step (h : Solvable (source :: destination :: others)) (ha : 0 < source.surplus)
    (hb : 0 < destination.deficit) (hshards : source.shards = shard :: rest) :
    Solvable (source.give rest :: destination.take :: others) where
  nodes_nodup := h.nodes_nodup
  stocked := by
    have hstock := h.stocked source List.mem_cons_self
    rw [hshards, List.length_cons, ← Standing.surplus_give ha rest] at hstock
    refine List.forall_mem_cons.2 ⟨Nat.le_of_succ_le_succ hstock, List.forall_mem_cons.2 ⟨?_, ?_⟩⟩
    · rw [Standing.surplus_take hb]
      exact Nat.zero_le _
    · exact fun s hs => h.stocked s (by simp [hs])
  even := by
    have heven := h.even
    have hgive := Standing.surplus_give ha rest
    have htake := Standing.deficit_take hb
    simp only [List.map_cons, List.sum_cons, Standing.deficit_of_surplus ha,
      Standing.surplus_of_deficit hb, Standing.deficit_give ha, Standing.surplus_take hb] at heven ⊢
    omega

/-- Moves that settle what is left after a move, together with this move settle all. -/
theorem Settles.cons {plans : List MovePlan} (hnodup : ((source :: destination :: others).map Standing.node).Nodup)
    (ha : 0 < source.surplus) (hb : 0 < destination.deficit) (hshards : source.shards = shard :: rest)
    (hne : source.node ≠ destination.node)
    (h : Settles (source.give rest :: destination.take :: others) plans) :
    Settles (source :: destination :: others) (⟨shard, source.node, destination.node, hne⟩ :: plans) := by
  simp only [List.map_cons, List.nodup_cons, List.mem_cons, not_or] at hnodup
  obtain ⟨⟨-, hsource⟩, hdestination, -⟩ := hnodup
  have hleaving := h.leaving
  have hcoming := h.coming
  simp only [List.forall_mem_cons] at hleaving hcoming
  constructor
  · simp only [List.forall_mem_cons]
    refine ⟨?_, ?_, fun s hs => ?_⟩
    · rw [departures_cons, if_pos rfl, hshards, ← Standing.surplus_give ha rest, List.take_succ_cons]
      exact congrArg (shard :: ·) hleaving.1
    · rw [departures_cons, if_neg hne, Standing.surplus_of_deficit hb, List.take_zero]
      refine hleaving.2.1.trans ?_
      rw [Standing.surplus_take hb, List.take_zero]
    · have hs' : source.node ≠ s.node := fun he => hsource (he ▸ List.mem_map_of_mem hs)
      rw [departures_cons, if_neg hs']
      exact hleaving.2.2 s hs
  · simp only [List.forall_mem_cons]
    refine ⟨?_, ?_, fun s hs => ?_⟩
    · rw [arrivals_cons, if_neg hne.symm, Standing.deficit_of_surplus ha]
      exact hcoming.1.trans (Standing.deficit_give ha rest)
    · rw [arrivals_cons, if_pos rfl, List.length_cons, ← Standing.deficit_take hb]
      exact congrArg (· + 1) hcoming.2.1
    · have hs' : destination.node ≠ s.node := fun he => hdestination (he ▸ List.mem_map_of_mem hs)
      rw [arrivals_cons, if_neg hs']
      exact hcoming.2.2 s hs
  · exact List.forall_mem_cons.2 ⟨by simp, h.source_mem⟩
  · exact List.forall_mem_cons.2 ⟨by simp, h.destination_mem⟩

end Step

/-! ## The whole pairing -/

theorem sum_filter_of_pos {p : Standing → Bool} {f : Standing → Nat} (hpos : ∀ s, p s = true ↔ 0 < f s)
    (all : List Standing) : ((all.filter p).map f).sum = (all.map f).sum := by
  induction all with
  | nil => rfl
  | cons s all ih =>
    by_cases h : p s = true
    · rw [List.filter_cons_of_pos h, List.map_cons, List.sum_cons, ih, List.map_cons, List.sum_cons]
    · have h0 : f s = 0 := Nat.eq_zero_of_not_pos (mt (hpos s).2 h)
      rw [List.filter_cons_of_neg h, ih, List.map_cons, List.sum_cons, h0, Nat.zero_add]

/-- The nodes in front of both queues are two different members, and what is left in the queues are the
others above and below their targets. -/
theorem exists_others {above above' below below' : Queue Standing} {all : List Standing}
    {source destination : Standing} (habove : above.toList.Perm (all.filter Standing.isAbove))
    (hbelow : below.toList.Perm (all.filter Standing.isBelow))
    (hpopA : above.pop? Standing.heavierFirst = some (source, above'))
    (hpopB : below.pop? Standing.lighterFirst = some (destination, below')) :
    ∃ others, all.Perm (source :: destination :: others) ∧
      0 < source.surplus ∧ 0 < destination.deficit ∧
      above'.toList.Perm (others.filter Standing.isAbove) ∧
      below'.toList.Perm (others.filter Standing.isBelow) := by
  have hfrontA := (Queue.perm_of_pop? hpopA).symm.trans habove
  have hfrontB := (Queue.perm_of_pop? hpopB).symm.trans hbelow
  obtain ⟨hsource, hisAbove⟩ := List.mem_filter.1 (hfrontA.mem_iff.1 List.mem_cons_self)
  obtain ⟨hdestination, hisBelow⟩ := List.mem_filter.1 (hfrontB.mem_iff.1 List.mem_cons_self)
  have ha := source.isAbove_iff.1 hisAbove
  have hb := destination.isBelow_iff.1 hisBelow
  have hnotA : ¬ destination.isAbove = true := by
    rw [Standing.isAbove_iff, Standing.surplus_of_deficit hb]
    exact Nat.lt_irrefl 0
  have hnotB : ¬ source.isBelow = true := by
    rw [Standing.isBelow_iff, Standing.deficit_of_surplus ha]
    exact Nat.lt_irrefl 0
  obtain ⟨left, right, rfl⟩ := List.append_of_mem hsource
  have hdestination' : destination ∈ left ++ right := by
    rcases List.mem_cons.1 (List.perm_middle.mem_iff.1 hdestination) with rfl | hm
    · exact absurd hisBelow hnotB
    · exact hm
  obtain ⟨left', right', hothers⟩ := List.append_of_mem hdestination'
  have hall : (left ++ source :: right).Perm (source :: destination :: (left' ++ right')) := by
    refine List.perm_middle.trans (List.Perm.cons source ?_)
    rw [hothers]
    exact List.perm_middle
  have hrestA := hfrontA.trans (hall.filter Standing.isAbove)
  have hrestB := hfrontB.trans (hall.filter Standing.isBelow)
  rw [List.filter_cons_of_pos hisAbove, List.filter_cons_of_neg hnotA] at hrestA
  rw [List.filter_cons_of_neg hnotB, List.filter_cons_of_pos hisBelow] at hrestB
  exact ⟨left' ++ right', hall, ha, hb, hrestA.cons_inv, hrestB.cons_inv⟩

/-- After a move the queues hold the nodes that are still above and below their targets. -/
theorem toList_above_after {above : Queue Standing} {source destination : Standing} {others : List Standing}
    (hb : 0 < destination.deficit) (habove : above.toList.Perm (others.filter Standing.isAbove)) (rest : List Shard) :
    (if (source.give rest).isAbove then above.push Standing.heavierFirst (source.give rest) else above).toList.Perm
      ((source.give rest :: destination.take :: others).filter Standing.isAbove) := by
  have hnot : ¬ destination.take.isAbove = true := by
    rw [Standing.isAbove_iff, Standing.surplus_take hb]
    exact Nat.lt_irrefl 0
  rw [List.filter_cons, List.filter_cons_of_neg hnot, ← List.filter_cons]
  exact Queue.toList_ite_push Standing.heavierFirst habove (source.give rest)

theorem toList_below_after {below : Queue Standing} {source destination : Standing} {others : List Standing}
    (ha : 0 < source.surplus) (hbelow : below.toList.Perm (others.filter Standing.isBelow)) (rest : List Shard) :
    (if destination.take.isBelow then below.push Standing.lighterFirst destination.take else below).toList.Perm
      ((source.give rest :: destination.take :: others).filter Standing.isBelow) := by
  have hnot : ¬ (source.give rest).isBelow = true := by
    rw [Standing.isBelow_iff, Standing.deficit_give ha]
    exact Nat.lt_irrefl 0
  rw [List.filter_cons_of_neg hnot]
  exact Queue.toList_ite_push Standing.lighterFirst hbelow destination.take

/-- The first shard moves, and the move tells the two nodes. -/
theorem nextMove_eq_ok_iff (source destination : Standing) (plan : MovePlan) (rest : List Shard) :
    nextMove source destination = .ok (plan, rest) ↔
      source.shards = plan.shard :: rest ∧ plan.source = source.node ∧ plan.destination = destination.node := by
  rw [nextMove]
  cases source.shards with
  | nil => simp
  | cons shard others =>
    obtain ⟨own, start, finish, hne⟩ := plan
    simp only [List.cons.injEq]
    split_ifs with hnode
    · simp only [false_iff, not_and]
      rintro - rfl rfl
      exact hne hnode
    · simp only [Except.ok.injEq, Prod.mk.injEq, MovePlan.mk.injEq]
      constructor
      · rintro ⟨⟨rfl, rfl, rfl⟩, rfl⟩
        exact ⟨⟨rfl, rfl⟩, rfl, rfl⟩
      · rintro ⟨⟨rfl, rfl⟩, rfl, rfl⟩
        exact ⟨⟨rfl, rfl, rfl⟩, rfl⟩

/-- The queues hold the nodes above and below their targets.  The sum of the surpluses goes down with every
move, so both queues run empty together and before the fuel does. -/
theorem pairUp_settles (loud : Bool) (fuel : Nat) {above below : Queue Standing} {all : List Standing}
    (h : Solvable all) (habove : above.toList.Perm (all.filter Standing.isAbove))
    (hbelow : below.toList.Perm (all.filter Standing.isBelow))
    (hfuel : (all.map Standing.surplus).sum ≤ fuel) :
    ∃ plans, (pairUp loud fuel above below).result = .ok plans ∧ Settles all plans := by
  induction fuel generalizing above below all with
  | zero => exact ⟨[], rfl, h.settles_nil (Nat.le_zero.1 hfuel)⟩
  | succ fuel ih =>
    cases hpopA : above.pop? Standing.heavierFirst with
    | none =>
      -- No surplus is left, so by the equal sums no deficit is left either; likewise for the other queue.
      have hzero := sum_filter_of_pos Standing.isAbove_iff all
      rw [Queue.toList_eq_nil_of_pop? hpopA] at habove
      rw [List.nil_perm.1 habove] at hzero
      exact ⟨[], by simp [pairUp, hpopA, Logged.silent], h.settles_nil hzero.symm⟩
    | some popped =>
      obtain ⟨source, above'⟩ := popped
      cases hpopB : below.pop? Standing.lighterFirst with
      | none =>
        have hzero := sum_filter_of_pos Standing.isBelow_iff all
        rw [Queue.toList_eq_nil_of_pop? hpopB] at hbelow
        rw [List.nil_perm.1 hbelow] at hzero
        exact ⟨[], by simp [pairUp, hpopA, hpopB, Logged.silent], h.settles_nil (h.even.trans hzero.symm)⟩
      | some popped =>
        obtain ⟨destination, below'⟩ := popped
        obtain ⟨others, hall, ha, hb, hrestA, hrestB⟩ := exists_others habove hbelow hpopA hpopB
        have hsolvable := h.perm hall
        have hne : source.node ≠ destination.node := by
          have hnodup := hsolvable.nodes_nodup
          simp only [List.map_cons, List.nodup_cons, List.mem_cons, not_or] at hnodup
          exact hnodup.1.1
        obtain ⟨shard, rest, hshards⟩ : ∃ shard rest, source.shards = shard :: rest :=
          List.exists_cons_of_length_pos
            (Nat.lt_of_lt_of_le ha (hsolvable.stocked source List.mem_cons_self))
        have hless : ((source.give rest :: destination.take :: others).map Standing.surplus).sum ≤ fuel := by
          rw [(hall.map Standing.surplus).sum_eq] at hfuel
          have hgive := Standing.surplus_give ha rest
          simp only [List.map_cons, List.sum_cons, Standing.surplus_take hb] at hfuel ⊢
          omega
        obtain ⟨plans, hplans, hsettles⟩ := ih (hsolvable.step ha hb hshards)
          (toList_above_after hb hrestA rest) (toList_below_after ha hrestB rest) hless
        have hmove : nextMove source destination =
            .ok (⟨shard, source.node, destination.node, hne⟩, rest) :=
          (nextMove_eq_ok_iff source destination _ rest).2 ⟨hshards, rfl, rfl⟩
        refine ⟨_, ?_, (Settles.cons hsolvable.nodes_nodup ha hb hshards hne hsettles).perm hall.symm⟩
        simp only [pairUp, hpopA, hpopB, hmove, andThen, hplans]
        rfl

theorem movesFor_settles (loud : Bool) {all : List Standing} (h : Solvable all) :
    ∃ plans, (movesFor loud all).result = .ok plans ∧ Settles all plans := by
  refine pairUp_settles loud _ h (Queue.toList_ofList _ _) (Queue.toList_ofList _ _) (le_of_eq ?_)
  rw [← sum_filter_of_pos Standing.isAbove_iff, List.sum_eq_foldl, List.foldl_map]

end Planner
end Placement
