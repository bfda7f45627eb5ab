import Placement.Proofs.Fields
import Placement.Proofs.MoveOrder

/-!
# Replays taken back

A move that was carried out can be taken back: its destination owns the shard now, and its source is still listed.  So
the reversed moves, the last one first, lead back to the ownership at the beginning (`Ownership.run_undoing`), and a
well-formed snapshot comes out of both replays as it was but for the order in which nodes list their shards
(`Snapshot.apply_undone`).
-/

namespace Placement
set_option autoImplicit false

namespace MovePlan

/-- The moves back, the last one first. -/
def undoing (plans : List MovePlan) : List MovePlan := (plans.map reversed).reverse

theorem undoing_cons (plan : MovePlan) (plans : List MovePlan) :
    undoing (plan :: plans) = undoing plans ++ [plan.reversed] := by
  rw [undoing, List.map_cons, List.reverse_cons, undoing]

theorem make_reversed (plan : MovePlan) : make plan.shard plan.destination plan.source = .ok plan.reversed :=
  make_of_ne plan.distinct.symm

end MovePlan

/-! ## Ownership -/

namespace Ownership
variable {o next last : Ownership} {plan : MovePlan} {plans : List MovePlan}

/-- Shards are owned by nodes that are listed. -/
def Listed (o : Ownership) : Prop := ∀ shard node, o.owner shard = some node → o.isNode node = true

theorem Listed.step (ho : o.Listed) (h : o.step plan = .ok next) : next.Listed := by
  obtain ⟨hnode, -, rfl⟩ := (step_eq_ok_iff o next plan).1 h
  intro shard node howner
  dsimp only at howner
  split_ifs at howner
  · cases howner
    exact hnode
  · exact ho shard node howner

theorem step_reversed (ho : o.Listed) (h : o.step plan = .ok next) : next.step plan.reversed = .ok o := by
  obtain ⟨-, howner, rfl⟩ := (step_eq_ok_iff o next plan).1 h
  refine (step_eq_ok_iff _ o plan.reversed).2 ⟨ho _ _ howner, if_pos rfl, ?_⟩
  have hback : (fun shard => if shard = plan.shard then some plan.source
      else if shard = plan.shard then some plan.destination else o.owner shard) = o.owner := by
    funext shard
    split_ifs with hshard
    · rw [hshard, howner]
    · rfl
  exact congrArg (Ownership.mk o.isNode) hback.symm

theorem run_undoing (ho : o.Listed) (h : o.run plans = .ok last) : last.run (MovePlan.undoing plans) = .ok o := by
  induction plans generalizing o with
  | nil =>
    cases h
    rfl
  | cons plan plans ih =>
    obtain ⟨next, hstep, hrun⟩ := (run_cons_eq_ok_iff o last plan plans).1 h
    have hback := step_reversed ho hstep
    rw [MovePlan.undoing_cons, run_append, ih (ho.step hstep) hrun]
    exact (run_cons_eq_ok_iff next o plan.reversed []).2 ⟨o, hback, rfl⟩

end Ownership

/-! ## Snapshots -/

namespace Snapshot

theorem ownership_listed (s : Snapshot) : s.ownership.Listed := by
  intro shard node howner
  exact (s.hosted.contains_iff node).2 (Table.mem_keys_of_mem_row (mem_held_of_owner howner))

/-- Moves that could be replayed can be taken back, move by move from the last to the first. -/
theorem apply_undone {s after : Snapshot} {plans : List MovePlan} (hs : s.WellFormed)
    (h : (s.apply plans).result = .ok after) :
    (∀ plan ∈ plans, MovePlan.make plan.shard plan.destination plan.source = .ok plan.reversed) ∧
      ∃ back, (after.apply (plans.map MovePlan.reversed).reverse).result = .ok back ∧
        back.hosted.keys = s.hosted.keys ∧ back.Agrees s := by
  rw [apply_result] at h
  have hafter := hs.of_replay h
  have hrun := Ownership.run_undoing s.ownership_listed (ownership_of_replay hs h)
  obtain ⟨back, hback, hsame⟩ := replay_of_ownership hafter hrun
  exact ⟨fun plan _ => plan.make_reversed, back, (apply_result _ _).trans hback,
    (keys_of_replay hback).trans (keys_of_replay h), agrees_of_ownership (hafter.of_replay hback) hs hsame⟩

/-- A shard that was handed on twice comes back, behind the one that has stayed. -/
theorem apply_undone_relay :
    staggered.WellFormed ∧ ∃ after back, (staggered.apply (relay.take 2)).result = .ok after ∧
      (after.apply ((relay.take 2).map MovePlan.reversed).reverse).result = .ok back ∧
      back.held (host "a") = [⟨"t", [], [], 1⟩, ⟨"t", [], [], 0⟩] ∧ back.Agrees staggered := by
  have hs : staggered.WellFormed := by decide
  have hfits : ∃ after, (staggered.apply (relay.take 2)).result = .ok after := ⟨_, rfl⟩
  obtain ⟨after, hafter⟩ := hfits
  obtain ⟨-, back, hback, -, hagrees⟩ := apply_undone hs hafter
  refine ⟨hs, after, back, hafter, hback, ?_, hagrees⟩
  cases hafter
  cases hback
  rfl

end Snapshot
end Placement
