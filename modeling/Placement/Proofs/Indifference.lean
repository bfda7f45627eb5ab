import Placement.Proofs.Balancing
import Placement.Proofs.ColdStart
import Placement.Proofs.PairingScan

/-!
# What a plan depends on

A planner reads the loads of the nodes, and of the shards only which one comes next.  So renaming the shards
of a snapshot renames those of its moves and changes nothing else (`Planner.balance_relabel`), and the order
in which a snapshot lists its nodes makes no difference (`Planner.balance_eq_of_perm`).  Two snapshots with
the same loads become the same up to this order when all their shards are given one name.
-/

namespace Placement
set_option autoImplicit false

/-! ## Renaming shards -/

section
variable (f : Shard → Shard)

def MovePlan.relabel (plan : MovePlan) : MovePlan := ⟨f plan.shard, plan.source, plan.destination, plan.distinct⟩

def Standing.relabel (s : Standing) : Standing := ⟨s.node, s.load, s.target, s.shards.map f⟩

def Snapshot.relabel (s : Snapshot) : Snapshot := ⟨s.hosted.mapValues fun _ shards => shards.map f⟩

end

/-- From where a move goes, and where to. -/
def MovePlan.ends (plan : MovePlan) : Node × Node := (plan.source, plan.destination)

@[simp] theorem MovePlan.ends_relabel (f : Shard → Shard) (plan : MovePlan) : (plan.relabel f).ends = plan.ends :=
  rfl

@[simp] theorem MovePlan.relabel_id : MovePlan.relabel id = id := rfl

namespace Planner
variable (f : Shard → Shard)

theorem first?_map (before : Standing → Standing → Bool)
    (hbefore : ∀ a b, before (a.relabel f) (b.relabel f) = before a b) (all : List Standing) :
    first? before (all.map (Standing.relabel f)) = (first? before all).map (Standing.relabel f) := by
  induction all with
  | nil => rfl
  | cons s others ih =>
    rw [List.map_cons, first?, first?, ih]
    cases first? before others with
    | none => rfl
    | some t =>
      simp only [Option.map_some, hbefore]
      split_ifs <;> rfl

theorem nextMove_relabel (source destination : Standing) :
    nextMove (source.relabel f) (destination.relabel f) =
      (nextMove source destination).map fun moved => (moved.1.relabel f, moved.2.map f) := by
  unfold nextMove
  cases hshards : source.shards with
  | nil => simp [Standing.relabel, hshards, Except.map]
  | cons shard rest =>
    by_cases hnode : source.node = destination.node
    · simp [Standing.relabel, hshards, hnode, Except.map]
    · simp [Standing.relabel, MovePlan.relabel, hshards, hnode, Except.map]

theorem update_relabel (s : Standing) (all : List Standing) :
    update (s.relabel f) (all.map (Standing.relabel f)) = (update s all).map (Standing.relabel f) := by
  simp only [update, List.map_map]
  refine List.map_congr_left fun t _ => ?_
  simp only [Function.comp_apply]
  split_ifs with h h' h'
  · rfl
  · exact absurd h h'
  · exact absurd h' h
  · rfl

/-- The scan compares nodes, loads and targets, so it takes the same turns whatever the shards are called. -/
theorem scan_relabel (fuel : Nat) (all : List Standing) :
    scan fuel (all.map (Standing.relabel f)) = (scan fuel all).map (List.map (MovePlan.relabel f)) := by
  induction fuel generalizing all with
  | zero => rfl
  | succ fuel ih =>
    have habove : (all.map (Standing.relabel f)).filter Standing.isAbove =
        (all.filter Standing.isAbove).map (Standing.relabel f) := List.filter_map
    have hbelow : (all.map (Standing.relabel f)).filter Standing.isBelow =
        (all.filter Standing.isBelow).map (Standing.relabel f) := List.filter_map
    rw [scan, scan, habove, hbelow, first?_map f Standing.heavierFirst fun _ _ => rfl,
      first?_map f Standing.lighterFirst fun _ _ => rfl]
    cases first? Standing.heavierFirst (all.filter Standing.isAbove) with
    | none => rfl
    | some source =>
      cases first? Standing.lighterFirst (all.filter Standing.isBelow) with
      | none => rfl
      | some destination =>
        simp only [Option.map_some, nextMove_relabel]
        cases nextMove source destination with
        | error e => rfl
        | ok moved =>
          obtain ⟨plan, rest⟩ := moved
          have hafter := ih (update destination.take (update (source.give rest) all))
          rw [← update_relabel, ← update_relabel] at hafter
          change Except.map (plan.relabel f :: ·) (scan fuel (update (destination.take.relabel f)
            (update ((source.give rest).relabel f) (all.map (Standing.relabel f))))) = _
          rw [hafter]
          simp only
          cases scan fuel (update destination.take (update (source.give rest) all)) <;> rfl

theorem movesFor_relabel {all : List Standing} (hnodup : (all.map Standing.node).Nodup) (loud : Bool) :
    (movesFor loud (all.map (Standing.relabel f))).result =
      (movesFor loud all).result.map (List.map (MovePlan.relabel f)) := by
  have hnodes : (all.map (Standing.relabel f)).map Standing.node = all.map Standing.node := by
    rw [List.map_map]
    rfl
  have hsurplus : (all.map (Standing.relabel f)).map Standing.surplus = all.map Standing.surplus := by
    rw [List.map_map]
    rfl
  rw [movesFor_eq_scan loud (List.Perm.refl _) (hnodes ▸ hnodup), hsurplus, scan_relabel,
    movesFor_eq_scan loud (List.Perm.refl _) hnodup]

end Planner

/-! ## Snapshots that a planner does not tell apart -/

namespace Snapshot
variable {s t : Snapshot} {f : Shard → Shard}

theorem summary_relabel (f : Shard → Shard) (s : Snapshot) : (s.relabel f).summary = s.summary := by
  simp only [summary, loads, relabel, Table.mapValues_mapValues, List.length_map]

theorem standings_nodup (s : Snapshot) : ((Planner.standings s).map Standing.node).Nodup := by
  rw [standings_eq]
  exact s.standingsFor_nodup s.goal

theorem standings_relabel (f : Shard → Shard) (s : Snapshot) :
    Planner.standings (s.relabel f) = (Planner.standings s).map (Standing.relabel f) := by
  have hentries : (s.relabel f).hosted.entries = s.hosted.entries.map fun e => (e.1, e.2.map f) := rfl
  simp only [Planner.standings, summary_relabel, hentries, List.map_map, Function.comp_def, List.length_map,
    Standing.relabel]

theorem summary_eq_of_perm (h : s.hosted.entries.Perm t.hosted.entries) : s.summary = t.summary := by
  have hloads (u : Snapshot) : u.loads.values = u.hosted.entries.map fun e => e.2.length := by
    simp [loads, Table.values, Table.mapValues, Function.comp_def]
  unfold summary
  rw [hloads, hloads]
  exact LoadSummary.ofLoads_eq_of_perm ((h.map _).map _)

theorem standings_perm (h : s.hosted.entries.Perm t.hosted.entries) :
    (Planner.standings s).Perm (Planner.standings t) := by
  unfold Planner.standings
  rw [Targets.ofLoads_eq_of_perm (h.map _), summary_eq_of_perm h]
  exact h.map _

theorem relabel_perm (hnodes : s.nodes = t.nodes)
    (hheld : ∀ node ∈ s.nodes, (s.held node).map f = (t.held node).map f) :
    (s.relabel f).hosted.entries.Perm (t.relabel f).hosted.entries := by
  refine Table.entries_perm fun node => ?_
  rw [relabel, relabel, Table.get?_mapValues, Table.get?_mapValues]
  by_cases hnode : node ∈ s.nodes
  · have hother : node ∈ t.nodes := hnodes ▸ hnode
    have hsame := hheld node hnode
    rw [mem_nodes_iff] at hnode hother
    rw [Table.get?_of_mem_keys hnode, Table.get?_of_mem_keys hother]
    exact congrArg some hsame
  · have hother : node ∉ t.nodes := hnodes ▸ hnode
    rw [mem_nodes_iff, ← Table.get?_eq_none_iff] at hnode hother
    rw [hnode, hother]

/-- The loads of `lopsided` in another order of the nodes, with a shard that two of them host. -/
def restocked : Snapshot :=
  .ofList [(Retain.host "d", []), (Retain.host "b", [⟨"u", [], [], 0⟩, ⟨"u", [], [], 1⟩]), (Retain.host "c", []),
    (Retain.host "a", [⟨"u", [], [], 2⟩, ⟨"u", [], [], 1⟩, ⟨"t", [], [], 0⟩])]

/-- The lists of `lopsided` in this order. -/
def reordered : Snapshot :=
  .ofList [(Retain.host "d", []), (Retain.host "b", [⟨"t", [], [], 3⟩, ⟨"t", [], [], 4⟩]), (Retain.host "c", []),
    (Retain.host "a", [⟨"t", [], [], 0⟩, ⟨"t", [], [], 1⟩, ⟨"t", [], [], 2⟩])]

end Snapshot

namespace Planner
variable {p q : Planner} {s t : Snapshot} {f : Shard → Shard}

theorem balance_relabel (f : Shard → Shard) (p : Planner) (s : Snapshot) :
    (p.balance (s.relabel f)).result = (p.balance s).result.map (List.map (MovePlan.relabel f)) := by
  by_cases hbalanced : s.summary.isBalanced = true
  · rw [p.balance_of_isBalanced hbalanced, p.balance_of_isBalanced ((s.summary_relabel f).symm ▸ hbalanced)]
    rfl
  · rw [p.balance_of_not_isBalanced hbalanced,
      p.balance_of_not_isBalanced ((s.summary_relabel f).symm ▸ hbalanced), Snapshot.summary_relabel,
      Snapshot.standings_relabel, movesFor_relabel f s.standings_nodup]
    cases p.slop.tolerates s.summary with
    | error e => rfl
    | ok within => cases within <;> rfl

/-- The order of the nodes makes no difference, and neither does what is logged. -/
theorem balance_eq_of_perm (hslop : p.slop = q.slop) (h : s.hosted.entries.Perm t.hosted.entries) :
    (p.balance s).result = (q.balance t).result := by
  have hsummary := Snapshot.summary_eq_of_perm h
  by_cases hbalanced : s.summary.isBalanced = true
  · rw [p.balance_of_isBalanced hbalanced, q.balance_of_isBalanced (hsummary ▸ hbalanced)]
  · have hmoves : (movesFor p.logPlans (standings s)).result = (movesFor q.logPlans (standings t)).result := by
      rw [movesFor_eq_scan _ (Snapshot.standings_perm h) t.standings_nodup,
        movesFor_eq_scan _ (List.Perm.refl _) t.standings_nodup]
    rw [p.balance_of_not_isBalanced hbalanced, q.balance_of_not_isBalanced (hsummary ▸ hbalanced), hslop,
      hsummary, hmoves]

theorem balance_eq_of_relabel (hslop : p.slop = q.slop) (hnodes : s.nodes = t.nodes)
    (hheld : ∀ node ∈ s.nodes, (s.held node).map f = (t.held node).map f) :
    (p.balance s).result.map (List.map (MovePlan.relabel f)) =
      (q.balance t).result.map (List.map (MovePlan.relabel f)) := by
  rw [← balance_relabel, ← balance_relabel]
  exact balance_eq_of_perm hslop (Snapshot.relabel_perm hnodes hheld)

theorem error_iff_of_map_eq {ε α β : Type} {g : α → β} {x y : Except ε α} (h : x.map g = y.map g) (e : ε) :
    x = .error e ↔ y = .error e := by
  cases x with
  | ok a => cases y <;> simp_all [Except.map]
  | error cause => cases y <;> simp_all [Except.map]

theorem balance_depends_on_loads (p q : Planner) (s t : Snapshot) (hslop : p.slop = q.slop)
    (hnodes : s.nodes = t.nodes) (hloads : ∀ node ∈ s.nodes, s.load node = t.load node) :
    (p.slop.isExact = true →
      ∃ plans others, (p.balance s).result = .ok plans ∧ (q.balance t).result = .ok others) ∧
    (∀ e, (p.balance s).result = .error e ↔ (q.balance t).result = .error e) ∧
    ∀ plans others, (p.balance s).result = .ok plans → (q.balance t).result = .ok others →
      plans.length = others.length ∧ plans.map MovePlan.ends = others.map MovePlan.ends ∧
      ((∀ node ∈ s.nodes, s.shardsOn node = t.shardsOn node) → plans = others) := by
  -- With one name for all shards a list is no more than its length.
  have hblind := balance_eq_of_relabel (f := fun _ => ⟨"", [], [], 0⟩) hslop hnodes fun node hnode => by
    have hload := hloads node hnode
    rw [Snapshot.load_of_mem hnode, Snapshot.load_of_mem (hnodes ▸ hnode), Except.ok.injEq] at hload
    rw [List.map_const', List.map_const']
    exact congrArg (List.replicate · _) hload
  refine ⟨fun hexact => ?_, fun e => ?_, fun plans others hplans hothers => ?_⟩
  · obtain ⟨plans, hplans⟩ := p.exists_balance hexact s
    obtain ⟨others, hothers⟩ := q.exists_balance (hslop ▸ hexact) t
    exact ⟨plans, others, hplans, hothers⟩
  · exact error_iff_of_map_eq hblind e
  · have hends : plans.map MovePlan.ends = others.map MovePlan.ends := by
      rw [hplans, hothers] at hblind
      have h := congrArg (List.map MovePlan.ends) (Except.ok.inj hblind)
      simpa [Function.comp_def] using h
    refine ⟨?_, hends, fun hshards => ?_⟩
    · have hlength := congrArg List.length hends
      rwa [List.length_map, List.length_map] at hlength
    · have h := balance_eq_of_relabel (f := id) hslop hnodes fun node hnode => by
        have hheld := hshards node hnode
        rw [Snapshot.shardsOn_of_mem hnode, Snapshot.shardsOn_of_mem (hnodes ▸ hnode), Except.ok.injEq] at hheld
        rw [hheld]
      rw [hplans, hothers] at h
      simpa using Except.ok.inj h

/-- The strict planner, but every move is logged for all to see. -/
def talkative : Planner := { strict with logPlans := true }

theorem balance_depends_on_loads_restocked :
    strict.slop = talkative.slop ∧ strict.slop.isExact = true ∧
      Snapshot.lopsided.nodes = Snapshot.restocked.nodes ∧
      (∀ node ∈ Snapshot.lopsided.nodes, Snapshot.lopsided.load node = Snapshot.restocked.load node) ∧
      ∃ plans others, (strict.balance .lopsided).result = .ok plans ∧
        (talkative.balance .restocked).result = .ok others ∧
        plans.map MovePlan.ends = others.map MovePlan.ends ∧ plans ≠ others ∧
        (talkative.balance .reordered).result = .ok plans := by
  have hloads : ∀ node ∈ Snapshot.lopsided.nodes,
      Snapshot.lopsided.load node = Snapshot.restocked.load node := by decide
  have hlists : ∀ node ∈ Snapshot.lopsided.nodes,
      Snapshot.lopsided.shardsOn node = Snapshot.reordered.shardsOn node := by decide
  obtain ⟨hanswers, -, hmoves⟩ := balance_depends_on_loads strict talkative .lopsided .restocked rfl (by decide) hloads
  obtain ⟨plans, others, hplans, hothers⟩ := hanswers strict_isExact
  obtain ⟨-, hends, -⟩ := hmoves plans others hplans hothers
  obtain ⟨hanswers, -, hlisted⟩ :=
    balance_depends_on_loads strict talkative .lopsided .reordered rfl (by decide) (by decide)
  obtain ⟨again, same, hagain, hsame⟩ := hanswers strict_isExact
  obtain ⟨-, -, heq⟩ := hlisted again same hagain hsame
  have hshards : (strict.balance .lopsided).result.map (List.map MovePlan.shard) ≠
      (talkative.balance .restocked).result.map (List.map MovePlan.shard) := by cbv; decide
  rw [hplans, hothers] at hshards
  rw [hplans, Except.ok.injEq] at hagain
  refine ⟨rfl, strict_isExact, by decide, hloads, plans, others, hplans, hothers, hends, ?_, ?_⟩
  · rintro rfl
    exact hshards rfl
  · rw [hsame, hagain, heq hlists]

end Planner
end Placement
