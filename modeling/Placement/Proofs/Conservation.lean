import Placement.Proofs.Ownership

/-!
# Replays on any snapshot

Nothing keeps a snapshot from listing a shard twice or on several nodes.  The owner of such a shard is the greatest
node that lists it (`Snapshot.ownerOf_eq_some_iff`).  A replay on it still finds every shard where its owner is
recorded, so a move is refused for its destination or for its source only, whether or not that can be put into words
(`Snapshot.replay_eq_error_iff`), and moves that fit neither lose a shard nor bring one up
(`Snapshot.apply_conserves`).
-/

namespace Placement
set_option autoImplicit false

namespace Snapshot

/-! ## Refused moves -/

namespace Replay

/-- Why a move does not fit: its destination is not listed, or its source does not own the shard. -/
inductive Refuses (r : Replay) (plan : MovePlan) : SnapshotError → Prop
  | unknownNode (hdest : plan.destination ∉ r.hosted.keys) : Refuses r plan (.unknownNode plan.destination)
  | stalePlan (hdest : plan.destination ∈ r.hosted.keys) (howner : r.owners.get? plan.shard ≠ some plan.source) :
      Refuses r plan (.stalePlan plan (r.owners.get? plan.shard))

/-- Where owners list what they own, a shard is there when it is taken from its source. -/
theorem step_eq_error_iff {r : Replay} (hr : r.Tracked) (plan : MovePlan) (e : SnapshotError) :
    r.step plan = .error e ↔ ∃ reason, r.Refuses plan reason ∧ reason.raised = e := by
  have hcontains := r.hosted.contains_iff plan.destination
  constructor
  · intro h
    by_cases hdest : plan.destination ∈ r.hosted.keys
    · by_cases howner : r.owners.get? plan.shard = some plan.source
      · rw [(step_eq_ok_iff r _ plan).2 ⟨hdest, howner, hr _ _ howner, rfl⟩] at h
        cases h
      · rw [step, if_neg (not_not_intro (hcontains.2 hdest)), if_pos howner] at h
        exact ⟨_, .stalePlan hdest howner, Except.error.inj h⟩
    · rw [step, if_pos (mt hcontains.1 hdest)] at h
      exact ⟨_, .unknownNode hdest, Except.error.inj h⟩
  · rintro ⟨reason, hdest | ⟨hdest, howner⟩, rfl⟩
    · rw [step, if_pos (mt hcontains.1 hdest)]
    · rw [step, if_neg (not_not_intro (hcontains.2 hdest)), if_pos howner]

/-- A run fails at the first move that does not fit. -/
theorem run_eq_error_iff {r : Replay} (hr : r.Tracked) (plans : List MovePlan) (e : SnapshotError) :
    r.run plans = .error e ↔ ∃ reason, reason.raised = e ∧
      ∃ done plan rest middle, plans = done ++ plan :: rest ∧ r.run done = .ok middle ∧
        middle.Refuses plan reason := by
  constructor
  · intro h
    induction plans generalizing r with
    | nil => cases h
    | cons plan plans ih =>
      cases hstep : r.step plan with
      | error cause =>
        rw [run, hstep] at h
        cases h
        obtain ⟨reason, hrefuses, hraised⟩ := (step_eq_error_iff hr plan _).1 hstep
        exact ⟨reason, hraised, [], plan, plans, r, rfl, rfl, hrefuses⟩
      | ok next =>
        rw [run, hstep] at h
        obtain ⟨reason, hraised, done, first, rest, middle, rfl, hdone, hrefuses⟩ := ih (hr.step hstep) h
        exact ⟨reason, hraised, plan :: done, first, rest, middle, rfl,
          (run_cons_eq_ok_iff r middle plan done).2 ⟨next, hstep, hdone⟩, hrefuses⟩
  · rintro ⟨reason, hraised, done, plan, rest, middle, rfl, hdone, hrefuses⟩
    have hstep := (step_eq_error_iff (hr.run hdone) plan e).2 ⟨reason, hrefuses, hraised⟩
    rw [run_append, hdone, Except.bind, run, hstep]

end Replay

theorem replay_eq_error_iff (s : Snapshot) (plans : List MovePlan) (e : SnapshotError) :
    s.replay plans = .error e ↔ ∃ reason, reason.raised = e ∧
      ∃ done plan rest middle, plans = done ++ plan :: rest ∧
        Replay.run ⟨s.hosted, s.owners⟩ done = .ok middle ∧ middle.Refuses plan reason := by
  rw [← Replay.run_eq_error_iff s.tracked_start, replay]
  cases Replay.run ⟨s.hosted, s.owners⟩ plans <;> simp [Except.map]

/-! ## Owners of shared shards -/

variable (s : Snapshot) (shard : Shard)

theorem le_owner {owner node : Node} (howner : s.owners.get? shard = some owner) (hmem : shard ∈ s.held node) :
    node ≤ owner := by
  refine Table.le_of_get?_ofList ?_ howner (List.mem_flatMap.2
    ⟨node, mem_nodes_of_mem_held hmem, List.mem_map.2 ⟨shard, hmem, rfl⟩⟩)
  rw [List.pairwise_flatMap]
  constructor
  · intro n _
    rw [List.pairwise_map]
    exact List.pairwise_of_forall fun _ _ => le_rfl
  · refine (Ordered.distinct_pairwise s.hosted.keys).imp fun hlt e he f hf => ?_
    obtain ⟨_, -, rfl⟩ := List.mem_map.1 he
    obtain ⟨_, -, rfl⟩ := List.mem_map.1 hf
    exact hlt.le

theorem ownerOf_eq_some_iff (node : Node) :
    s.ownerOf shard = some node ↔ IsGreatest {n | shard ∈ s.held n} node := by
  constructor
  · intro howner
    exact ⟨mem_held_of_owner howner, fun other hother => s.le_owner shard howner hother⟩
  · intro hgreatest
    obtain ⟨owner, howner⟩ := exists_owner hgreatest.1
    have howns : IsGreatest {n | shard ∈ s.held n} owner :=
      ⟨mem_held_of_owner howner, fun other hother => s.le_owner shard howner hother⟩
    rw [ownerOf, howner, howns.unique hgreatest]

theorem ownerOf_eq_none_iff : s.ownerOf shard = none ↔ ∀ node, shard ∉ s.held node := by
  constructor
  · intro hnone node hmem
    obtain ⟨owner, howner⟩ := exists_owner hmem
    rw [ownerOf, howner] at hnone
    cases hnone
  · intro hnowhere
    rw [Option.eq_none_iff_forall_not_mem]
    exact fun node howner => hnowhere node (mem_held_of_owner howner)

/-! ## What a replay keeps -/

/-- A replay stops at the first move that does not fit, with the reason or, where this cannot be put into words, with
the error of that; its owners list what they own all the way.  When all moves fit, the nodes stay as they are, the
shards of all nodes stay the same and the loads change move by move. -/
theorem apply_conserves (s : Snapshot) (plans : List MovePlan) :
    (∀ e, (s.apply plans).result = .error e ↔
      ∃ reason, (reason.Writable ∧ e = reason ∨ ¬ reason.Writable ∧ e = .unworded .digits) ∧
        ∃ done plan rest middle, plans = done ++ plan :: rest ∧
          Replay.run ⟨s.hosted, s.owners⟩ done = .ok middle ∧ middle.Refuses plan reason) ∧
    (∀ last, Replay.run ⟨s.hosted, s.owners⟩ plans = .ok last → ∀ shard node,
      last.owners.get? shard = some node → ∃ shards, last.hosted.get? node = some shards ∧ shard ∈ shards) ∧
    (∀ shard node, s.ownerOf shard = some node ↔ IsGreatest {n | shard ∈ s.held n} node) ∧
    (∀ shard, s.ownerOf shard = none ↔ ∀ node, shard ∉ s.held node) ∧
    ∀ after, (s.apply plans).result = .ok after →
      after.hosted.keys = s.hosted.keys ∧ after.nodes = s.nodes ∧
      after.hosted.values.flatten.Perm s.hosted.values.flatten ∧
      ∀ node ∈ s.nodes, ∃ before now : Nat, s.load node = .ok before ∧ after.load node = .ok now ∧
        (now : Int) = before + (MovePlan.arrivals node plans).length - (MovePlan.departures node plans).length := by
  rw [apply_result]
  simp only [← SnapshotError.raised_eq_iff]
  refine ⟨s.replay_eq_error_iff plans, fun last hlast shard node howner => ?_, s.ownerOf_eq_some_iff,
    s.ownerOf_eq_none_iff, fun after hafter => ?_⟩
  · have hmem := s.tracked_start.run hlast shard node howner
    exact ⟨_, Table.get?_of_mem_keys (Table.mem_keys_of_mem_row hmem), hmem⟩
  · exact ⟨keys_of_replay hafter, nodes_of_replay hafter, shards_perm_of_replay hafter,
      fun node => load_of_replay hafter⟩

/-- One shard twice on a host and once more on another one. -/
def shared : Snapshot :=
  .ofList [(host "a", [⟨"t", [], [], 0⟩, ⟨"t", [], [], 0⟩]), (host "b", []),
    (host "c", [⟨"t", [], [], 0⟩, ⟨"t", [], [], 1⟩])]

/-- The shard goes from the greater one of its hosts to the other, and then it is asked for where it was. -/
def gathering : List MovePlan :=
  [⟨⟨"t", [], [], 0⟩, host "c", host "a", by decide⟩, ⟨⟨"t", [], [], 0⟩, host "c", host "b", by decide⟩]

theorem apply_conserves_shared :
    ¬ shared.WellFormed ∧
      (shared.ownerOf ⟨"t", [], [], 0⟩ = some (host "c") ∧
        ∀ node, ⟨"t", [], [], 0⟩ ∈ shared.held node → node ≤ host "c") ∧
      (shared.apply gathering).result =
        .error (.stalePlan ⟨⟨"t", [], [], 0⟩, host "c", host "b", by decide⟩ (some (host "a"))) ∧
      ∃ after, (shared.apply (gathering.take 1)).result = .ok after ∧ after.nodes = shared.nodes ∧
        after.hosted.values.flatten.Perm shared.hosted.values.flatten ∧
        ∃ now : Nat, after.load (host "a") = .ok now ∧ (now : Int) = 2 + 1 - 0 := by
  have hshared : ¬ shared.WellFormed := by decide
  have hfits : ∃ last, Replay.run ⟨shared.hosted, shared.owners⟩ (gathering.take 1) = .ok last ∧
      last.Refuses ⟨⟨"t", [], [], 0⟩, host "c", host "b", by decide⟩
        (.stalePlan ⟨⟨"t", [], [], 0⟩, host "c", host "b", by decide⟩ (some (host "a"))) :=
    ⟨_, rfl, .stalePlan (by decide) (by decide)⟩
  have howner : shared.ownerOf ⟨"t", [], [], 0⟩ = some (host "c") := rfl
  have htwo : shared.load (host "a") = .ok 2 := rfl
  obtain ⟨last, hlast, hrefuses⟩ := hfits
  have hresult : (shared.apply (gathering.take 1)).result = .ok ⟨last.hosted⟩ := by
    rw [apply_result]
    exact replay_eq_ok_iff.2 ⟨last, hlast, rfl⟩
  obtain ⟨herror, -, hgreatest, -, -⟩ := apply_conserves shared gathering
  obtain ⟨-, -, -, -, hafter⟩ := apply_conserves shared (gathering.take 1)
  obtain ⟨-, hnodes, hshards, hloads⟩ := hafter _ hresult
  obtain ⟨before, now, hbefore, hnow, hsum⟩ := hloads (host "a") (by decide)
  cases Except.ok.inj (htwo.symm.trans hbefore)
  exact ⟨hshared, ⟨howner, ((hgreatest _ _).1 howner).2⟩,
    (herror _).2 ⟨_, .inl ⟨writable_stalePlan _ _ _ _, rfl⟩, _, _, [], last, rfl, hlast, hrefuses⟩, _, hresult, hnodes, hshards, now,
    hnow, hsum⟩

/-- The error is neither of the two refusals, since the node that is missing has no name. -/
theorem apply_conserves_nameless :
    (shared.apply [⟨⟨"t", [], [], 0⟩, host "c", nameless, host_ne_nameless (by decide)⟩]).result =
      .error (.unworded .digits) := by
  have hrefuses : Replay.Refuses ⟨shared.hosted, shared.owners⟩
      ⟨⟨"t", [], [], 0⟩, host "c", nameless, host_ne_nameless (by decide)⟩ (.unknownNode nameless) :=
    .unknownNode (by decide)
  have hwords : ¬ (SnapshotError.unknownNode nameless).Writable := Numeral.not_writable_overlong
  rw [apply_result, replay_eq_error_iff]
  exact ⟨_, SnapshotError.raised_of_not_writable hwords, [], _, [], _, rfl, rfl, hrefuses⟩

end Snapshot
end Placement
