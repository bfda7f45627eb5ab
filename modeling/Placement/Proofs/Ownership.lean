import Placement.Ownership
import Placement.Proofs.Replay
import Placement.Proofs.Wording

/-!
# Replays and ownership

A replay checks a move against its map of owners only, works on the lists of the nodes beside it, and in the
end keeps nothing but the lists.  Still the owners that are read off these lists again are those of
`Ownership.run` (`Snapshot.apply_refines_ownership`), and the two differ only where a refusal cannot be put into
words.  Ownership knows all there is to know about a well-formed snapshot but the order of its lists
(`Snapshot.same_iff_ownership`).
-/

namespace Placement
set_option autoImplicit false

namespace Snapshot

/-! ## Steps and runs -/

namespace Replay

def ownership (r : Replay) : Ownership := ⟨r.hosted.contains, r.owners.get?⟩

/-- A move that fits one of them fits the other, and both refuse it for the same reason. -/
theorem step_ownership {r : Replay} (hr : r.Tracked) (plan : MovePlan) :
    (r.step plan).map ownership = (r.ownership.step plan).mapError SnapshotError.raised := by
  have hisNode : r.ownership.isNode = r.hosted.contains := rfl
  have howners : r.ownership.owner = r.owners.get? := rfl
  have hcontains := r.hosted.contains_iff plan.destination
  rw [Ownership.step, hisNode, howners]
  by_cases hdest : plan.destination ∈ r.hosted.keys
  · have hnode : r.hosted.contains plan.destination = true := hcontains.2 hdest
    by_cases howner : r.owners.get? plan.shard = some plan.source
    · have hstep := (step_eq_ok_iff r _ plan).2 ⟨hdest, howner, hr _ _ howner, rfl⟩
      have hkeys : (r.hosted.mapValues plan.carry).contains = r.hosted.contains := by
        funext node
        rw [Bool.eq_iff_iff, Table.contains_iff, Table.contains_iff, Table.keys_mapValues]
      have hget : (r.owners.insert plan.shard plan.destination).get? =
          fun shard => if shard = plan.shard then some plan.destination else r.owners.get? shard := by
        funext shard
        exact Table.get?_insert _ _ _ _
      rw [hstep, if_neg (by simp [hnode]), if_neg (not_not_intro howner), Except.map, ownership, hkeys, hget]
      rfl
    · rw [step, if_neg (not_not_intro hnode), if_pos howner, if_neg (by simp [hnode]), if_pos howner]
      rfl
  · have hnode : ¬ r.hosted.contains plan.destination = true := mt hcontains.1 hdest
    rw [step, if_pos hnode, if_pos (Bool.eq_false_iff.2 hnode)]
    rfl

theorem run_ownership {r : Replay} (hr : r.Tracked) (plans : List MovePlan) :
    (r.run plans).map ownership = (r.ownership.run plans).mapError SnapshotError.raised := by
  induction plans generalizing r with
  | nil => rfl
  | cons plan plans ih =>
    have hstep := step_ownership hr plan
    rw [run, Ownership.run]
    cases hown : r.ownership.step plan with
    | ok moved =>
      rw [hown] at hstep
      cases hnext : r.step plan with
      | ok next =>
        rw [hnext] at hstep
        cases hstep
        exact ih (hr.step hnext)
      | error e =>
        rw [hnext] at hstep
        cases hstep
    | error reason =>
      rw [hown] at hstep
      cases hnext : r.step plan with
      | ok next =>
        rw [hnext] at hstep
        cases hstep
      | error e =>
        rw [hnext] at hstep
        exact hstep

/-- Every shard that a node lists has an owner. -/
def Owned (r : Replay) : Prop :=
  ∀ shard node, shard ∈ r.hosted.row node → ∃ owner, r.owners.get? shard = some owner

theorem Owned.step {r next : Replay} {plan : MovePlan} (hr : r.Owned) (h : r.step plan = .ok next) :
    next.Owned := by
  obtain ⟨hdest, -, -, rfl⟩ := (step_eq_ok_iff r next plan).1 h
  intro shard node hmem
  rw [Table.get?_insert]
  by_cases hshard : shard = plan.shard
  · exact ⟨plan.destination, if_pos hshard⟩
  · have hnode : node ∈ r.hosted.keys := by
      rw [← Table.keys_mapValues r.hosted plan.carry]
      exact Table.mem_keys_of_mem_row hmem
    rw [Table.row_mapValues _ hnode, MovePlan.carry] at hmem
    rw [if_neg hshard]
    split_ifs at hmem
    · exact hr shard node (List.mem_of_mem_erase hmem)
    · exact hr shard node ((List.mem_append.1 hmem).resolve_right (by simpa using hshard))
    · exact hr shard node hmem

theorem Owned.run {r last : Replay} {plans : List MovePlan} (hr : r.Owned) (h : r.run plans = .ok last) :
    last.Owned :=
  invariant_of_run Owned.step hr h

end Replay

/-! ## Owners read off the lists -/

theorem owned_start (s : Snapshot) : Replay.Owned ⟨s.hosted, s.owners⟩ :=
  fun _ _ h => exists_owner h

theorem WellFormed.ownerOf_eq_some_iff {s : Snapshot} (hs : s.WellFormed) (shard : Shard) (node : Node) :
    s.ownerOf shard = some node ↔ shard ∈ s.held node :=
  ⟨mem_held_of_owner, hs.owner_eq⟩

/-- The owners that a replay has kept are the owners that its lists have in the end. -/
theorem ownership_of_tracked {last : Replay} (htracked : last.Tracked) (howned : last.Owned)
    (hs : WellFormed ⟨last.hosted⟩) : ownership ⟨last.hosted⟩ = last.ownership := by
  have howner : ownerOf ⟨last.hosted⟩ = last.owners.get? := by
    funext shard
    refine Option.ext fun node => ?_
    rw [hs.ownerOf_eq_some_iff]
    constructor
    · intro hmem
      obtain ⟨owner, hget⟩ := howned shard node hmem
      rw [hget, hs.eq_of_mem_held (htracked shard owner hget) hmem]
    · exact htracked shard node
  rw [ownership, howner]
  rfl

theorem replay_ownership {s : Snapshot} (hs : s.WellFormed) (plans : List MovePlan) :
    (s.replay plans).map ownership = (s.ownership.run plans).mapError SnapshotError.raised := by
  have hrun := Replay.run_ownership s.tracked_start plans
  cases hlast : Replay.run ⟨s.hosted, s.owners⟩ plans with
  | error e =>
    rw [hlast] at hrun
    rw [replay, hlast]
    exact hrun
  | ok last =>
    have hafter : s.replay plans = .ok ⟨last.hosted⟩ := replay_eq_ok_iff.2 ⟨last, hlast, rfl⟩
    rw [hlast] at hrun
    rw [hafter, Except.map,
      ownership_of_tracked (s.tracked_start.run hlast) (s.owned_start.run hlast) (hs.of_replay hafter)]
    exact hrun

section
variable {s after : Snapshot} {plans : List MovePlan} {last : Ownership} {e : SnapshotError}

theorem replay_of_ownership (hs : s.WellFormed) (h : s.ownership.run plans = .ok last) :
    ∃ after, s.replay plans = .ok after ∧ after.ownership = last := by
  have hreplay := replay_ownership hs plans
  rw [h] at hreplay
  cases hresult : s.replay plans with
  | ok after =>
    rw [hresult] at hreplay
    exact ⟨after, rfl, Except.ok.inj hreplay⟩
  | error cause =>
    rw [hresult] at hreplay
    cases hreplay

theorem replay_error_of_ownership (hs : s.WellFormed) (h : s.ownership.run plans = .error e) :
    s.replay plans = .error e.raised := by
  have hreplay := replay_ownership hs plans
  rw [h] at hreplay
  cases hresult : s.replay plans with
  | ok after =>
    rw [hresult] at hreplay
    cases hreplay
  | error cause =>
    rw [hresult] at hreplay
    exact congrArg Except.error (Except.error.inj hreplay)

theorem ownership_of_replay (hs : s.WellFormed) (h : s.replay plans = .ok after) :
    s.ownership.run plans = .ok after.ownership := by
  cases hown : s.ownership.run plans with
  | ok last =>
    obtain ⟨other, hother, rfl⟩ := replay_of_ownership hs hown
    cases h.symm.trans hother
    rfl
  | error e => cases h.symm.trans (replay_error_of_ownership hs hown)

end

/-- A replay goes through just if ownership does, and otherwise it fails as ownership does, unless an id in the
refusal cannot be written. -/
theorem apply_refines_ownership (s : Snapshot) (hs : s.WellFormed) (plans : List MovePlan) :
    (∀ last, s.ownership.run plans = .ok last ↔
      ∃ after, (s.apply plans).result = .ok after ∧ after.ownership = last) ∧
    (∀ e, s.ownership.run plans = .error e →
      (e.Writable → (s.apply plans).result = .error e) ∧
      (¬ e.Writable → (s.apply plans).result = .error (.unworded .digits))) ∧
    ∀ after, (s.apply plans).result = .ok after → after.WellFormed ∧ after.nodes = s.nodes ∧
      ∀ node ∈ s.nodes, ∃ before now : Nat, s.load node = .ok before ∧ after.load node = .ok now ∧
        (now : Int) = before + (MovePlan.arrivals node plans).length -
          (MovePlan.departures node plans).length := by
  rw [apply_result]
  refine ⟨fun last => ⟨replay_of_ownership hs, ?_⟩, fun e he => ?_, fun after hafter => ?_⟩
  · rintro ⟨after, hafter, rfl⟩
    exact ownership_of_replay hs hafter
  · rw [replay_error_of_ownership hs he]
    exact ⟨fun h => by rw [SnapshotError.raised_of_writable h],
      fun h => by rw [SnapshotError.raised_of_not_writable h]⟩
  · exact ⟨hs.of_replay hafter, nodes_of_replay hafter, fun node => load_of_replay hafter⟩

def host (name : String) : Node := ⟨name, ⟨16000, by decide⟩, 1⟩

/-- Three hosts with two, one and no shards. -/
def staggered : Snapshot :=
  .ofList [(host "a", [⟨"t", [], [], 0⟩, ⟨"t", [], [], 1⟩]), (host "b", [⟨"t", [], [], 2⟩]), (host "c", [])]

/-- A shard is handed on twice, and then it is asked for where it was at first. -/
def relay : List MovePlan :=
  [⟨⟨"t", [], [], 0⟩, host "a", host "b", by decide⟩,
    ⟨⟨"t", [], [], 0⟩, host "b", host "c", by decide⟩,
    ⟨⟨"t", [], [], 0⟩, host "a", host "b", by decide⟩]

/-- The hosts and their first shard can all be named in a refusal. -/
theorem writable_stalePlan (a b c : String) (hne : host a ≠ host b) :
    (SnapshotError.stalePlan ⟨⟨"t", [], [], 0⟩, host a, host b, hne⟩ (some (host c))).Writable := by
  have hid : Numeral.Writable 0 := by decide +kernel
  have hcode : Numeral.Writable 1 := by decide +kernel
  refine ⟨hid, hcode, ?_⟩
  rintro node ⟨⟩
  exact hcode

theorem apply_refines_ownership_relay :
    staggered.WellFormed ∧
      (staggered.apply relay).result =
        .error (.stalePlan ⟨⟨"t", [], [], 0⟩, host "a", host "b", by decide⟩ (some (host "c"))) ∧
      ∃ after, (staggered.apply (relay.take 2)).result = .ok after ∧ after.WellFormed ∧
        after.ownerOf ⟨"t", [], [], 0⟩ = some (host "c") := by
  have hs : staggered.WellFormed := by decide
  have hstale : staggered.ownership.run relay =
      .error (.stalePlan ⟨⟨"t", [], [], 0⟩, host "a", host "b", by decide⟩ (some (host "c"))) := rfl
  have hmoved : ∃ last, staggered.ownership.run (relay.take 2) = .ok last ∧
      last.owner ⟨"t", [], [], 0⟩ = some (host "c") := ⟨_, rfl, rfl⟩
  obtain ⟨-, hlate, -⟩ := apply_refines_ownership staggered hs relay
  obtain ⟨htwice, -, hafter⟩ := apply_refines_ownership staggered hs (relay.take 2)
  obtain ⟨last, hlast, howner⟩ := hmoved
  obtain ⟨after, hresult, rfl⟩ := (htwice last).1 hlast
  exact ⟨hs, (hlate _ hstale).1 (writable_stalePlan _ _ _ _), after, hresult, (hafter after hresult).1, howner⟩

/-- A node with a start code that cannot be written. -/
def nameless : Node := ⟨"nameless", ⟨16000, by decide⟩, Numeral.overlong⟩

theorem host_ne_nameless {name : String} (h : name ≠ "nameless") : host name ≠ nameless :=
  fun heq => h (congrArg Node.host heq)

/-- The node that is missing has no name, so its refusal gives way to another error. -/
theorem apply_refines_ownership_nameless :
    staggered.WellFormed ∧
      staggered.ownership.run [⟨⟨"t", [], [], 0⟩, host "a", nameless, host_ne_nameless (by decide)⟩] =
        .error (.unknownNode nameless) ∧
      (staggered.apply [⟨⟨"t", [], [], 0⟩, host "a", nameless, host_ne_nameless (by decide)⟩]).result =
        .error (.unworded .digits) := by
  have hs : staggered.WellFormed := by decide
  have hunknown : staggered.ownership.run
      [⟨⟨"t", [], [], 0⟩, host "a", nameless, host_ne_nameless (by decide)⟩] = .error (.unknownNode nameless) := rfl
  have hwords : ¬ (SnapshotError.unknownNode nameless).Writable := Numeral.not_writable_overlong
  refine ⟨hs, hunknown, ?_⟩
  rw [apply_result, replay_error_of_ownership hs hunknown, SnapshotError.raised_of_not_writable hwords]

/-! ## Equality up to the order of lists -/

theorem covered_iff (s t : Snapshot) :
    (s.hosted.entries.all fun e =>
      match t.hosted.get? e.1 with
      | some shards => e.2.all shards.contains && shards.all e.2.contains
      | none => false) = true ↔
      ∀ node ∈ s.nodes, node ∈ t.nodes ∧ ∀ shard, shard ∈ s.held node ↔ shard ∈ t.held node := by
  have hentry : ∀ e ∈ s.hosted.entries,
      (match t.hosted.get? e.1 with
        | some shards => e.2.all shards.contains && shards.all e.2.contains
        | none => false) = true ↔
      e.1 ∈ t.nodes ∧ ∀ shard, shard ∈ s.held e.1 ↔ shard ∈ t.held e.1 := by
    intro e he
    have hheld : s.held e.1 = e.2 := Table.row_of_mem_entries he
    rw [mem_nodes_iff, Table.mem_keys_iff, hheld]
    cases hget : t.hosted.get? e.1 with
    | none => simp
    | some shards =>
      have hother : t.held e.1 = shards := Table.row_of_get? hget
      simp only [hother, Bool.and_eq_true, List.all_eq_true, List.contains_iff_mem, Option.some.injEq,
        exists_eq', true_and]
      exact ⟨fun h shard => ⟨h.1 shard, h.2 shard⟩, fun h => ⟨fun shard => (h shard).1, fun shard => (h shard).2⟩⟩
  rw [List.all_eq_true]
  constructor
  · intro h node hnode
    obtain ⟨e, he, rfl⟩ := List.mem_map.1 ((s.mem_nodes_iff node).1 hnode)
    exact (hentry e he).1 (h e he)
  · intro h e he
    exact (hentry e he).2 (h e.1 ((s.mem_nodes_iff e.1).2 (List.mem_map_of_mem he)))

theorem same_iff (s t : Snapshot) :
    s.same t = true ↔ s.nodes = t.nodes ∧ ∀ node shard, shard ∈ s.held node ↔ shard ∈ t.held node := by
  rw [same, Bool.and_eq_true]
  refine (and_congr (covered_iff s t) (covered_iff t s)).trans ?_
  rw [nodes_eq_iff]
  constructor
  · rintro ⟨hst, hts⟩
    refine ⟨fun node => ⟨fun h => (hst node h).1, fun h => (hts node h).1⟩, fun node shard => ?_⟩
    by_cases hnode : node ∈ s.nodes
    · exact (hst node hnode).2 shard
    · have hnode' : node ∉ t.nodes := fun h => hnode (hts node h).1
      exact iff_of_false (mt mem_nodes_of_mem_held hnode) (mt mem_nodes_of_mem_held hnode')
  · rintro ⟨hnodes, hheld⟩
    exact ⟨fun node h => ⟨(hnodes node).1 h, hheld node⟩,
      fun node h => ⟨(hnodes node).2 h, fun shard => (hheld node shard).symm⟩⟩

theorem ownership_eq_iff (s t : Snapshot) :
    s.ownership = t.ownership ↔ s.nodes = t.nodes ∧ ∀ shard, s.ownerOf shard = t.ownerOf shard := by
  have hisNode : s.contains = t.contains ↔ s.nodes = t.nodes := by
    rw [nodes_eq_iff, funext_iff]
    refine forall_congr' fun node => ?_
    rw [Bool.eq_iff_iff, contains, contains, Table.contains_iff, Table.contains_iff, mem_nodes_iff, mem_nodes_iff]
  rw [ownership, ownership, Ownership.mk.injEq, hisNode, funext_iff]

theorem same_iff_ownership {s t : Snapshot} (hs : s.WellFormed) (ht : t.WellFormed) :
    s.same t = true ↔ s.ownership = t.ownership := by
  have howner : (∀ shard, s.ownerOf shard = t.ownerOf shard) ↔
      ∀ node shard, shard ∈ s.held node ↔ shard ∈ t.held node := by
    rw [forall_comm]
    refine forall_congr' fun shard => ?_
    simp only [Option.ext_iff, hs.ownerOf_eq_some_iff, ht.ownerOf_eq_some_iff]
  rw [same_iff, ownership_eq_iff, howner]

end Snapshot
end Placement
