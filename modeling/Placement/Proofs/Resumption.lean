import Placement.Proofs.Ownership

/-!
# Replays in parts

A replay that stops and starts again reads the owners off the lists anew, where a replay without a stop has
carried them along.  On a well-formed snapshot both find the same owners, only in another order, and a replay
asks for nothing else (`Snapshot.Replay.run_hosted_eq`).  So it makes no difference where a list of moves is cut
(`Snapshot.apply_append`).
-/

namespace Placement
set_option autoImplicit false

namespace Snapshot
namespace Replay
variable {r t : Replay}

/-- The same lists, and the same owner of every shard. -/
structure Alike (r t : Replay) : Prop where
  hosted_eq : r.hosted = t.hosted
  owner_eq : ∀ shard, r.owners.get? shard = t.owners.get? shard

theorem Alike.step (h : r.Alike t) (plan : MovePlan) :
    (∃ e, r.step plan = .error e ∧ t.step plan = .error e) ∨
      ∃ next other, r.step plan = .ok next ∧ t.step plan = .ok other ∧ next.Alike other := by
  have howner := h.owner_eq plan.shard
  unfold Replay.step
  rw [← h.hosted_eq, ← howner]
  split_ifs with hdest hsource hshard
  · exact .inl ⟨_, rfl, rfl⟩
  · refine .inr ⟨_, _, rfl, rfl, rfl, fun shard => ?_⟩
    rw [Table.get?_insert, Table.get?_insert, h.owner_eq shard]
  · exact .inl ⟨_, rfl, rfl⟩
  · exact .inl ⟨_, rfl, rfl⟩

theorem run_hosted_eq (h : r.Alike t) (plans : List MovePlan) :
    (r.run plans).map hosted = (t.run plans).map hosted := by
  induction plans generalizing r t with
  | nil => exact congrArg Except.ok h.hosted_eq
  | cons plan plans ih =>
    rw [run, run]
    obtain ⟨e, hr, ht⟩ | ⟨next, other, hr, ht, halike⟩ := h.step plan
    · rw [hr, ht]
    · rw [hr, ht]
      exact ih halike

end Replay

theorem replay_eq_map (s : Snapshot) (plans : List MovePlan) :
    s.replay plans = ((Replay.run ⟨s.hosted, s.owners⟩ plans).map Replay.hosted).map Snapshot.mk := by
  rw [replay]
  cases Replay.run ⟨s.hosted, s.owners⟩ plans <;> rfl

/-- The owners that a replay has kept are as good as those that its lists have. -/
theorem WellFormed.alike_of_run {s : Snapshot} {last : Replay} {plans : List MovePlan} (hs : s.WellFormed)
    (h : Replay.run ⟨s.hosted, s.owners⟩ plans = .ok last) :
    last.Alike ⟨last.hosted, owners ⟨last.hosted⟩⟩ := by
  have htracked := s.tracked_start.run h
  have howned := s.owned_start.run h
  have hafter := hs.of_replay (replay_eq_ok_iff.2 ⟨last, h, rfl⟩)
  have hsame := congrArg Ownership.owner (ownership_of_tracked htracked howned hafter)
  exact ⟨rfl, fun shard => (congrFun hsame shard).symm⟩

theorem WellFormed.replay_append {s : Snapshot} (hs : s.WellFormed) (plans more : List MovePlan) :
    s.replay (plans ++ more) = (s.replay plans).bind fun middle => middle.replay more := by
  rw [replay_eq_map, Replay.run_append, replay]
  cases hlast : Replay.run ⟨s.hosted, s.owners⟩ plans with
  | error e => rfl
  | ok last =>
    have hresume := Replay.run_hosted_eq (hs.alike_of_run hlast) more
    exact (congrArg (Except.map Snapshot.mk) hresume).trans (replay_eq_map ⟨last.hosted⟩ more).symm

theorem apply_append (s : Snapshot) (hs : s.WellFormed) (plans more : List MovePlan) :
    (s.apply (plans ++ more)).result =
      (s.apply plans).result.bind fun middle => (middle.apply more).result := by
  simp only [apply_result]
  exact hs.replay_append plans more

/-- A move of the shard that has been handed on twice is refused after a stop as it is without one. -/
theorem apply_append_relay :
    staggered.WellFormed ∧ ∃ middle, (staggered.apply (relay.take 2)).result = .ok middle ∧
      middle.hosted.entries =
        [(host "a", [⟨"t", [], [], 1⟩]), (host "b", [⟨"t", [], [], 2⟩]), (host "c", [⟨"t", [], [], 0⟩])] ∧
      (middle.apply (relay.drop 2)).result =
        .error (.stalePlan ⟨⟨"t", [], [], 0⟩, host "a", host "b", by decide⟩ (some (host "c"))) := by
  have hs : staggered.WellFormed := by decide
  have howned : staggered.ownership.run relay =
      .error (.stalePlan ⟨⟨"t", [], [], 0⟩, host "a", host "b", by decide⟩ (some (host "c"))) := rfl
  have hstale : (staggered.apply relay).result =
      .error (.stalePlan ⟨⟨"t", [], [], 0⟩, host "a", host "b", by decide⟩ (some (host "c"))) := by
    rw [apply_result, replay_error_of_ownership hs howned,
      SnapshotError.raised_of_writable (writable_stalePlan _ _ _ _)]
  have happend := apply_append staggered hs (relay.take 2) (relay.drop 2)
  rw [List.take_append_drop, hstale] at happend
  exact ⟨hs, _, rfl, rfl, happend.symm⟩

/-- A shard on two hosts has an owner after a stop that it did not have before. -/
example :
    let shared := ofList [(host "a", []), (host "b", [⟨"t", [], [], 0⟩]), (host "c", [⟨"t", [], [], 0⟩])]
    let first : MovePlan := ⟨⟨"t", [], [], 0⟩, host "c", host "a", by decide⟩
    let second : MovePlan := ⟨⟨"t", [], [], 0⟩, host "a", host "c", by decide⟩
    (shared.replay [first, second]).isOk = true ∧
      ((shared.replay [first]).bind fun middle => middle.replay [second]).isOk = false := by
  decide

end Snapshot
end Placement
