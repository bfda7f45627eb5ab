import Placement.Proofs.Failure
import Placement.Proofs.Ownership

/-!
# The order of moves

Whether a move fits depends on the nodes and on the owner of its own shard only.  So moves of different shards
do the same to the ownership in any order (`Ownership.run_perm`), and a snapshot comes out of them the same but
for the order in which nodes list their shards.
-/

namespace Placement
set_option autoImplicit false

namespace Ownership
variable {o next last : Ownership} {plans permuted : List MovePlan}

/-- Moves of two shards may change places. -/
theorem step_comm {a b : MovePlan} (hne : a.shard ≠ b.shard) (ha : o.step a = .ok next)
    (hb : next.step b = .ok last) : ∃ other, o.step b = .ok other ∧ other.step a = .ok last := by
  obtain ⟨hnodeA, hownerA, rfl⟩ := (step_eq_ok_iff o next a).1 ha
  obtain ⟨hnodeB, hownerB, rfl⟩ := (step_eq_ok_iff _ last b).1 hb
  have hown : o.owner b.shard = some b.source := (if_neg (Ne.symm hne)).symm.trans hownerB
  refine ⟨_, (step_eq_ok_iff o _ b).2 ⟨hnodeB, hown, rfl⟩, ?_⟩
  refine (step_eq_ok_iff _ _ a).2 ⟨hnodeA, (if_neg hne).trans hownerA, ?_⟩
  congr 1
  funext shard
  by_cases h : shard = a.shard
  · simp [h, hne]
  · simp [h]

theorem run_perm (hperm : plans.Perm permuted) (hshards : (plans.map MovePlan.shard).Nodup)
    (h : o.run plans = .ok last) : o.run permuted = .ok last := by
  induction hperm generalizing o with
  | nil => exact h
  | cons plan _ ih =>
    obtain ⟨next, hstep, hrun⟩ := (run_cons_eq_ok_iff o last _ _).1 h
    exact (run_cons_eq_ok_iff o last _ _).2 ⟨next, hstep, ih (List.nodup_cons.1 hshards).2 hrun⟩
  | swap b a plans =>
    obtain ⟨first, hfirst, hrest⟩ := (run_cons_eq_ok_iff o last _ _).1 h
    obtain ⟨second, hsecond, hrun⟩ := (run_cons_eq_ok_iff first last _ _).1 hrest
    have hne : a.shard ≠ b.shard := by
      intro heq
      simp [heq] at hshards
    obtain ⟨other, hother, hback⟩ := step_comm hne hfirst hsecond
    exact (run_cons_eq_ok_iff o last _ _).2
      ⟨other, hother, (run_cons_eq_ok_iff other last _ _).2 ⟨second, hback, hrun⟩⟩
  | trans hfirst _ ih ih' => exact ih' ((hfirst.map _).nodup_iff.1 hshards) (ih hshards h)

end Ownership

namespace Snapshot
variable {s t after other : Snapshot} {plans permuted : List MovePlan}

/-! ## Snapshots that agree -/

/-- Nothing tells two snapshots apart but the order in which nodes list their shards. -/
structure Agrees (s t : Snapshot) : Prop where
  nodes : s.nodes = t.nodes
  owners : ∀ shard, s.ownerOf shard = t.ownerOf shard
  loads : ∀ node, s.load node = t.load node
  same : s.same t = true

theorem agrees_of_ownership (hs : s.WellFormed) (ht : t.WellFormed) (h : s.ownership = t.ownership) :
    s.Agrees t := by
  have hsame := (same_iff_ownership hs ht).2 h
  obtain ⟨hnodes, hheld⟩ := (same_iff s t).1 hsame
  refine ⟨hnodes, congrFun (congrArg Ownership.owner h), fun node => ?_, hsame⟩
  by_cases hnode : node ∈ s.nodes
  · have hperm : (s.held node).Perm (t.held node) :=
      (List.perm_ext_iff_of_nodup (hs.held_nodup node) (ht.held_nodup node)).2 (hheld node)
    rw [load_of_mem hnode, load_of_mem (hnodes ▸ hnode), count, count, hperm.length_eq]
  · rw [load_of_notMem hnode, load_of_notMem (hnodes ▸ hnode)]

theorem Agrees.isBalancedFor (h : other.Agrees after) (hafter : after.IsBalancedFor s) :
    other.IsBalancedFor s := by
  have hloads : other.load = after.load := funext h.loads
  refine ⟨?_, ?_⟩
  · rw [IsEvenFor, h.nodes, hloads]
    exact hafter.even
  · rw [h.nodes, hloads]
    exact hafter.ceilings

/-! ## Replays in any order -/

theorem exists_replay_perm (hs : s.WellFormed) (hshards : (plans.map MovePlan.shard).Nodup)
    (hperm : permuted.Perm plans) (h : s.replay plans = .ok after) :
    ∃ other, s.replay permuted = .ok other ∧ other.Agrees after := by
  have hrun := Ownership.run_perm hperm.symm hshards (ownership_of_replay hs h)
  obtain ⟨other, hother, hsame⟩ := replay_of_ownership hs hrun
  exact ⟨other, hother, agrees_of_ownership (hs.of_replay hother) (hs.of_replay h) hsame⟩

theorem apply_in_any_order (s : Snapshot) (hs : s.WellFormed) :
    (∀ plans permuted : List MovePlan, (plans.map MovePlan.shard).Nodup → permuted.Perm plans →
      (∀ after, (s.apply plans).result = .ok after →
        ∃ other, (s.apply permuted).result = .ok other ∧ other.Agrees after) ∧
      ∀ e, (s.apply plans).result = .error e → ∃ e', (s.apply permuted).result = .error e') ∧
    ∀ p : Planner, (p.slop.isExact = true → ∃ plans, (p.balance s).result = .ok plans) ∧
      ∀ plans, (p.balance s).result = .ok plans →
        ∃ after, (s.apply plans).result = .ok after ∧ ∀ permuted, permuted.Perm plans →
          ∃ other, (s.apply permuted).result = .ok other ∧ other.Agrees after ∧
            (plans ≠ [] → other.IsBalancedFor s) ∧ (p.balance other).result = .ok [] := by
  simp only [apply_result]
  refine ⟨fun plans permuted hshards hperm => ⟨fun after => exists_replay_perm hs hshards hperm, ?_⟩,
    fun p => ⟨fun hslop => p.exists_balance hslop s, fun plans hplans => ?_⟩⟩
  · intro e herror
    cases hreplay : s.replay permuted with
    | error e' => exact ⟨e', rfl⟩
    | ok other =>
      -- Otherwise the moves could be put back in their first order.
      have hback := (hperm.map MovePlan.shard).nodup_iff.2 hshards
      obtain ⟨after, hafter, -⟩ := exists_replay_perm hs hback hperm.symm hreplay
      rw [herror] at hafter
      cases hafter
  · obtain ⟨rfl, -⟩ | hreaches := p.balance_outcome hplans
    · refine ⟨s, s.replay_nil, fun permuted hperm => ?_⟩
      rw [List.perm_nil.1 hperm]
      exact ⟨s, s.replay_nil, agrees_of_ownership hs hs rfl, fun hne => absurd rfl hne, hplans⟩
    · obtain ⟨after, hafter⟩ := hreaches.exists_replay hs
      have hbalanced := (hreaches.isEvenFor s.card_raised hafter).isBalancedFor hafter
      refine ⟨after, hafter, fun permuted hperm => ?_⟩
      obtain ⟨other, hother, hagrees⟩ := exists_replay_perm hs (hreaches.shards_nodup hs) hperm hafter
      have hother' := hagrees.isBalancedFor hbalanced
      have hagain := p.balance_of_isBalanced ((isBalanced_iff_isEvenFor hother).2 hother'.even)
      exact ⟨other, hother, hagrees, fun _ => hother', hagain⟩

/-- Two shards change hosts. -/
def exchange : List MovePlan :=
  [⟨⟨"t", [], [], 0⟩, host "a", host "c", by decide⟩,
    ⟨⟨"t", [], [], 2⟩, host "b", host "a", by decide⟩]

theorem apply_in_any_order_staggered :
    staggered.WellFormed ∧ (exchange.map MovePlan.shard).Nodup ∧
      (∃ after other, (staggered.apply exchange).result = .ok after ∧
        (staggered.apply exchange.reverse).result = .ok other ∧ other.Agrees after) ∧
      ∃ plans after other, (Planner.strict.balance staggered).result = .ok plans ∧
        (staggered.apply plans).result = .ok after ∧ (staggered.apply plans.reverse).result = .ok other ∧
        other.Agrees after ∧ (Planner.strict.balance other).result = .ok [] := by
  have hs : staggered.WellFormed := by decide
  have hshards : (exchange.map MovePlan.shard).Nodup := by decide
  have hfits : ∃ after, (staggered.apply exchange).result = .ok after := ⟨_, rfl⟩
  obtain ⟨hexchange, hplanned⟩ := apply_in_any_order staggered hs
  obtain ⟨after, hafter⟩ := hfits
  obtain ⟨other, hother, hagrees⟩ := (hexchange exchange _ hshards (List.reverse_perm _)).1 after hafter
  obtain ⟨hanswers, hany⟩ := hplanned Planner.strict
  obtain ⟨plans, hplans⟩ := hanswers Planner.strict_isExact
  obtain ⟨last, hlast, horders⟩ := hany plans hplans
  obtain ⟨mirror, hmirror, hsame, -, hagain⟩ := horders plans.reverse (List.reverse_perm _)
  exact ⟨hs, hshards, ⟨after, other, hafter, hother, hagrees⟩,
    plans, last, mirror, hplans, hlast, hmirror, hsame, hagain⟩

end Snapshot
end Placement
