import Placement.Proofs.Improvement
import Placement.Proofs.LeastLoaded
import Placement.Proofs.PairingScan

/-!
# The rule of the moves

While some node is above its target and some node is below, the rule takes the heaviest of the ones and the
lightest of the others, ties going to the smaller node, and moves the next shard of the former.
`Snapshot.Scanned` says this of a list of moves with nothing but the loads after the moves before.  A planner
follows the rule, and the rule leaves no choice (`Planner.balance_most_to_least`).  On the way the sources get
no heavier and the destinations no lighter.
-/

namespace Placement
set_option autoImplicit false

namespace Snapshot
open MovePlan
variable {s : Snapshot} {targets : Targets} {before plans others : List MovePlan} {plan other : MovePlan}
  {node : Node}

/-! ## The rule -/

section
variable (s : Snapshot) (targets : Targets)

/-- The nodes above their targets after some moves. -/
def above (before : List MovePlan) : List Node :=
  s.nodes.filter fun node => targets.of node < s.loadAfter before node

/-- The nodes below their targets after some moves. -/
def below (before : List MovePlan) : List Node :=
  s.nodes.filter fun node => s.loadAfter before node < targets.of node

/-- The shards of a node that have not been moved away. -/
def waiting (before : List MovePlan) (node : Node) : List Shard :=
  (s.held node).drop (departures node before).length

/-- The move that the rule asks for.  The heaviest node is the least one when loads count down. -/
structure Next (before : List MovePlan) (plan : MovePlan) : Prop where
  source : LeastLoaded.Least (s.above targets before) (fun node => -s.loadAfter before node) plan.source
  destination : LeastLoaded.Least (s.below targets before) (s.loadAfter before) plan.destination
  shard : (s.waiting before plan.source).head? = some plan.shard

/-- The moves that the rule makes after some moves, one at a time. -/
inductive Scanned : List MovePlan → List MovePlan → Prop
  | stop {before : List MovePlan} (h : s.above targets before = [] ∨ s.below targets before = []) :
      Scanned before []
  | move {before plans : List MovePlan} {plan : MovePlan} (h : s.Next targets before plan)
      (hmore : Scanned (before ++ [plan]) plans) : Scanned before (plan :: plans)

end

theorem mem_above_iff : node ∈ s.above targets before ↔ node ∈ s.nodes ∧ targets.of node < s.loadAfter before node := by
  rw [above, List.mem_filter, decide_eq_true_eq]

theorem mem_below_iff : node ∈ s.below targets before ↔ node ∈ s.nodes ∧ s.loadAfter before node < targets.of node := by
  rw [below, List.mem_filter, decide_eq_true_eq]

theorem Next.unique (h : s.Next targets before plan) (hother : s.Next targets before other) : plan = other := by
  have hsource := h.source.unique hother.source
  have hdestination := h.destination.unique hother.destination
  have hshard := h.shard
  rw [hsource, hother.shard, Option.some.injEq] at hshard
  cases plan
  cases other
  simp_all

theorem Scanned.unique (h : s.Scanned targets before plans) (hother : s.Scanned targets before others) :
    plans = others := by
  have hgoes {before : List MovePlan} {plan : MovePlan} (h : s.Next targets before plan) :
      ¬ (s.above targets before = [] ∨ s.below targets before = []) := by
    rintro (hnil | hnil)
    · exact List.ne_nil_of_mem h.source.1 hnil
    · exact List.ne_nil_of_mem h.destination.1 hnil
  induction h generalizing others with
  | stop hstop =>
    cases hother with
    | stop => rfl
    | move hnext => exact absurd hstop (hgoes hnext)
  | move hnext _ ih =>
    cases hother with
    | stop hstop => exact absurd hstop (hgoes hnext)
    | move hnext' hmore' =>
      cases hnext.unique hnext'
      rw [ih hmore']

/-! ## Loads on the way -/

/-- After a move no node above its target is heavier than the source was. -/
theorem Next.load_le (h : s.Next targets before plan) (hnode : node ∈ s.above targets (before ++ [plan])) :
    s.loadAfter (before ++ [plan]) node ≤ s.loadAfter before plan.source := by
  rw [mem_above_iff, loadAfter_concat, shift] at hnode
  rw [loadAfter_concat, shift]
  obtain ⟨hmem, habove⟩ := hnode
  obtain ⟨-, hbelow⟩ := mem_below_iff.1 h.destination.1
  split_ifs at habove ⊢ with hs hd
  · rw [hs]
    omega
  · rw [hd] at habove
    omega
  · exact neg_le_neg_iff.1 (h.source.load_le (mem_above_iff.2 ⟨hmem, habove⟩))

/-- After a move no node below its target is lighter than the destination was. -/
theorem Next.le_load (h : s.Next targets before plan) (hnode : node ∈ s.below targets (before ++ [plan])) :
    s.loadAfter before plan.destination ≤ s.loadAfter (before ++ [plan]) node := by
  rw [mem_below_iff, loadAfter_concat, shift] at hnode
  rw [loadAfter_concat, shift]
  obtain ⟨hmem, hbelow⟩ := hnode
  obtain ⟨-, habove⟩ := mem_above_iff.1 h.source.1
  split_ifs at hbelow ⊢ with hs hd
  · rw [hs] at hbelow
    omega
  · rw [hd]
    omega
  · exact h.destination.load_le (mem_below_iff.2 ⟨hmem, hbelow⟩)

theorem Scanned.of_append {first : List MovePlan} (h : s.Scanned targets before (first ++ plans)) :
    s.Scanned targets (before ++ first) plans := by
  induction first generalizing before with
  | nil => rwa [List.append_nil]
  | cons head first ih =>
    cases h with
    | move _ hmore =>
      rw [List.append_cons]
      exact ih hmore

/-- What every move of the rule preserves holds all the way. -/
theorem Scanned.invariant {P : List MovePlan → Prop}
    (hstep : ∀ before plan, s.Next targets before plan → P before → P (before ++ [plan])) {first : List MovePlan}
    (h : s.Scanned targets before (first ++ plans)) (hbefore : P before) : P (before ++ first) := by
  induction first generalizing before with
  | nil => rwa [List.append_nil]
  | cons head first ih =>
    cases h with
    | move hnext hmore =>
      rw [List.append_cons]
      exact ih hmore (hstep before head hnext hbefore)

theorem Scanned.source_le {load : Int} {first rest : List MovePlan} (h : s.Scanned targets before (first ++ plan :: rest))
    (hload : ∀ node ∈ s.above targets before, s.loadAfter before node ≤ load) :
    s.loadAfter (before ++ first) plan.source ≤ load := by
  have hlater := h.invariant (P := fun done => ∀ node ∈ s.above targets done, s.loadAfter done node ≤ load)
    (fun _ _ hnext hdone _ hnode => (hnext.load_le hnode).trans (hdone _ hnext.source.1)) hload
  cases h.of_append with
  | move hnext _ => exact hlater _ hnext.source.1

theorem Scanned.le_destination {load : Int} {first rest : List MovePlan}
    (h : s.Scanned targets before (first ++ plan :: rest))
    (hload : ∀ node ∈ s.below targets before, load ≤ s.loadAfter before node) :
    load ≤ s.loadAfter (before ++ first) plan.destination := by
  have hlater := h.invariant (P := fun done => ∀ node ∈ s.below targets done, load ≤ s.loadAfter done node)
    (fun _ _ hnext hdone _ hnode => (hdone _ hnext.destination.1).trans (hnext.le_load hnode)) hload
  cases h.of_append with
  | move hnext _ => exact hlater _ hnext.destination.1

/-! ## Scans follow the rule -/

section
variable (s : Snapshot) (targets : Targets)

/-- All nodes on the way to their targets after some moves. -/
def standingAfter (before : List MovePlan) (node : Node) : Standing :=
  ⟨node, s.loadAfter before node, targets.of node, s.waiting before node⟩

def standingsAfter (before : List MovePlan) : List Standing := s.nodes.map (s.standingAfter targets before)

theorem standings_perm_standingsAfter : (Planner.standings s).Perm (s.standingsAfter s.targets []) := by
  have hentries : Planner.standings s = s.hosted.keys.map (s.standingAfter s.targets []) := by
    rw [Planner.standings, Table.keys, List.map_map]
    refine List.map_congr_left fun e he => ?_
    rw [← Table.row_of_mem_entries he]
    rfl
  rw [hentries]
  exact s.nodes_perm.symm.map _

theorem filter_isAbove (before : List MovePlan) :
    (s.standingsAfter targets before).filter Standing.isAbove =
      (s.above targets before).map (s.standingAfter targets before) := List.filter_map

theorem filter_isBelow (before : List MovePlan) :
    (s.standingsAfter targets before).filter Standing.isBelow =
      (s.below targets before).map (s.standingAfter targets before) := List.filter_map

end

/-- Of the standings of some nodes the first one is that of the least node. -/
theorem least_of_first? {rank : Standing → Standing → Bool} {weight : Standing → Int}
    (hrank : ∀ a b, rank a b = true ↔ toLex (weight a, a.node) ≤ toLex (weight b, b.node)) {nodes : List Node}
    {first : Standing} (h : Planner.first? rank (nodes.map (s.standingAfter targets before)) = some first) :
    first = s.standingAfter targets before first.node ∧
      LeastLoaded.Least nodes (fun node => weight (s.standingAfter targets before node)) first.node := by
  obtain ⟨hmem, hle⟩ := Planner.mem_of_first? hrank h
  obtain ⟨node, hnode, rfl⟩ := List.mem_map.1 hmem
  refine ⟨rfl, hnode, fun other hother => ?_⟩
  exact Prod.Lex.toLex_le_toLex.1 (hle _ (List.mem_map_of_mem hother))

/-- A move of the first shard that is waiting leaves the others waiting. -/
theorem waiting_concat (s : Snapshot) (before : List MovePlan) (plan : MovePlan) (node : Node) :
    s.waiting (before ++ [plan]) node =
      if node = plan.source then (s.waiting before node).tail else s.waiting before node := by
  rw [waiting, waiting, departures_append, departures_cons, departures_nil, List.length_append]
  by_cases h : node = plan.source
  · rw [if_pos h, if_pos h.symm, List.length_singleton, List.tail_drop]
  · rw [if_neg h, if_neg (Ne.symm h), List.length_nil, Nat.add_zero]

theorem standingAfter_concat (s : Snapshot) (targets : Targets) (before : List MovePlan) (plan : MovePlan)
    (node : Node) : s.standingAfter targets (before ++ [plan]) node =
      if node = plan.source then (s.standingAfter targets before node).give (s.waiting before node).tail
      else if node = plan.destination then (s.standingAfter targets before node).take
      else s.standingAfter targets before node := by
  rw [standingAfter, loadAfter_concat, waiting_concat, shift]
  split_ifs <;> rfl

/-- To replace the standings of both ends of a move is to make the move. -/
theorem update_standingsAfter (s : Snapshot) (targets : Targets) (before : List MovePlan) (plan : MovePlan) :
    Planner.update (s.standingAfter targets before plan.destination).take
        (Planner.update ((s.standingAfter targets before plan.source).give (s.waiting before plan.source).tail)
          (s.standingsAfter targets before)) = s.standingsAfter targets (before ++ [plan]) := by
  rw [standingsAfter, standingsAfter, Planner.update, Planner.update, List.map_map, List.map_map]
  refine List.map_congr_left fun node _ => ?_
  have hnode (node : Node) : (s.standingAfter targets before node).node = node := rfl
  simp only [Function.comp_apply, Standing.give, Standing.take, hnode, standingAfter_concat]
  by_cases hs : node = plan.source
  · subst hs
    rw [if_pos rfl, if_pos rfl, if_neg plan.distinct]
  · rw [if_neg hs, if_neg hs, hnode]
    by_cases hd : node = plan.destination
    · rw [if_pos hd, if_pos hd, hd]
    · rw [if_neg hd, if_neg hd]

/-- One turn of the scan is one move of the rule. -/
theorem next_of_nextMove {source destination : Standing} {rest : List Shard}
    (hsource : Planner.first? Standing.heavierFirst
      ((s.standingsAfter targets before).filter Standing.isAbove) = some source)
    (hdestination : Planner.first? Standing.lighterFirst
      ((s.standingsAfter targets before).filter Standing.isBelow) = some destination)
    (hmove : Planner.nextMove source destination = .ok (plan, rest)) :
    s.Next targets before plan ∧
      Planner.update destination.take (Planner.update (source.give rest) (s.standingsAfter targets before)) =
        s.standingsAfter targets (before ++ [plan]) := by
  obtain ⟨hshards, hfrom, hto⟩ := (Planner.nextMove_eq_ok_iff _ _ _ _).1 hmove
  rw [filter_isAbove] at hsource
  rw [filter_isBelow] at hdestination
  obtain ⟨hstart, hheaviest⟩ := least_of_first? Standing.heavierFirst_iff hsource
  obtain ⟨hend, hlightest⟩ := least_of_first? Standing.lighterFirst_iff hdestination
  rw [← hfrom] at hstart hheaviest
  rw [← hto] at hend hlightest
  have hwaiting : s.waiting before plan.source = plan.shard :: rest := by
    rw [hstart] at hshards
    exact hshards
  have hrest : rest = (s.waiting before plan.source).tail := by rw [hwaiting, List.tail_cons]
  refine ⟨⟨hheaviest, hlightest, ?_⟩, ?_⟩
  · rw [hwaiting, List.head?_cons]
  · rw [hstart, hend, hrest]
    exact update_standingsAfter s targets before plan

/-- A scan that ends with no node above its target has followed the rule. -/
theorem scanned_of_scan {fuel : Nat} (h : Planner.scan fuel (s.standingsAfter targets before) = .ok plans)
    (hdone : s.above targets (before ++ plans) = []) : s.Scanned targets before plans := by
  induction fuel generalizing before plans with
  | zero =>
    cases h
    rw [List.append_nil] at hdone
    exact .stop (.inl hdone)
  | succ fuel ih =>
    rw [Planner.scan] at h
    cases hsource : Planner.first? Standing.heavierFirst
        ((s.standingsAfter targets before).filter Standing.isAbove) with
    | none =>
      rw [hsource] at h
      cases h
      rw [Planner.first?_eq_none_iff, filter_isAbove, List.map_eq_nil_iff] at hsource
      exact .stop (.inl hsource)
    | some source =>
      cases hdestination : Planner.first? Standing.lighterFirst
          ((s.standingsAfter targets before).filter Standing.isBelow) with
      | none =>
        rw [hsource, hdestination] at h
        cases h
        rw [Planner.first?_eq_none_iff, filter_isBelow, List.map_eq_nil_iff] at hdestination
        exact .stop (.inr hdestination)
      | some destination =>
        rw [hsource, hdestination] at h
        simp only at h
        cases hmove : Planner.nextMove source destination with
        | error e =>
          rw [hmove] at h
          cases h
        | ok moved =>
          obtain ⟨plan, rest⟩ := moved
          obtain ⟨hnext, hafter⟩ := next_of_nextMove hsource hdestination hmove
          rw [hmove] at h
          simp only [hafter] at h
          cases hmore : Planner.scan fuel (s.standingsAfter targets (before ++ [plan])) with
          | error e =>
            rw [hmore] at h
            cases h
          | ok more =>
            rw [hmore] at h
            cases h
            rw [List.append_cons] at hdone
            exact .move hnext (ih hmore hdone)

/-- Moves that reach the targets leave no node above its own. -/
theorem Reaches.above_eq_nil (h : s.Reaches s.goal plans) : s.above s.targets plans = [] := by
  rw [List.eq_nil_iff_forall_not_mem]
  intro node hnode
  obtain ⟨hmem, hlt⟩ := mem_above_iff.1 hnode
  have hleave := h.length_departures hmem
  have hcome := h.coming node hmem
  rw [targets_of, loadAfter, shiftAll_eq] at hlt
  omega

end Snapshot

namespace Planner

theorem scanned_movesFor {s : Snapshot} {loud : Bool} {plans : List MovePlan}
    (h : (movesFor loud (standings s)).result = .ok plans) (hreaches : s.Reaches s.goal plans) :
    s.Scanned s.targets [] plans := by
  have hnodes : (s.standingsAfter s.targets []).map Standing.node = s.nodes := by
    rw [Snapshot.standingsAfter, List.map_map]
    exact List.map_id _
  rw [movesFor_eq_scan loud s.standings_perm_standingsAfter (hnodes.symm ▸ s.nodes_nodup)] at h
  exact Snapshot.scanned_of_scan h hreaches.above_eq_nil

theorem balance_most_to_least (p : Planner) (s : Snapshot) (hslop : p.slop.tolerates s.summary = .ok false) :
    ∃ plans, (p.balance s).result = .ok plans ∧
      (∀ others, s.Scanned s.targets [] others ↔ others = plans) ∧
      ∀ first plan middle later rest, plans = first ++ plan :: (middle ++ later :: rest) →
        s.loadAfter (first ++ plan :: middle) later.source ≤ s.loadAfter first plan.source ∧
          s.loadAfter first plan.destination ≤ s.loadAfter (first ++ plan :: middle) later.destination := by
  have hbalanced := Slop.not_isBalanced_of_tolerates hslop
  obtain ⟨plans, hplans, hreaches⟩ := exists_movesFor p.logPlans s
  have hscanned := scanned_movesFor hplans hreaches
  refine ⟨plans, ?_, fun others => ⟨fun h => h.unique hscanned, fun h => h ▸ hscanned⟩, ?_⟩
  · rw [balance_of_not_isBalanced p hbalanced, hslop]
    exact hplans
  · rintro first plan middle later rest rfl
    cases hscanned.of_append with
    | move hnext hmore =>
      rw [List.append_cons]
      refine ⟨hmore.source_le fun node hnode => ?_, hmore.le_destination fun node hnode => ?_⟩
      · exact hnext.load_le hnode
      · exact hnext.le_load hnode

/-- The heaviest host reaches its target with one move, so the other move starts at the next one. -/
theorem balance_most_to_least_lopsided :
    strict.slop.tolerates Snapshot.lopsided.summary = .ok false ∧
      ∃ plan later, (strict.balance .lopsided).result = .ok [plan, later] ∧
        Snapshot.lopsided.Scanned Snapshot.lopsided.targets [] [plan, later] ∧
        Snapshot.lopsided.loadAfter [plan] later.source ≤ Snapshot.lopsided.loadAfter [] plan.source ∧
        Snapshot.lopsided.loadAfter [] plan.destination ≤
          Snapshot.lopsided.loadAfter [plan] later.destination := by
  have hslop : strict.slop.tolerates Snapshot.lopsided.summary = .ok false := rfl
  have hcount : (strict.balance .lopsided).result.map List.length = .ok 2 := by cbv
  obtain ⟨plans, hplans, hrule, hloads⟩ := balance_most_to_least strict .lopsided hslop
  rw [hplans] at hcount
  obtain ⟨plan, later, rfl⟩ := List.length_eq_two.1 (Except.ok.inj hcount)
  obtain ⟨hsource, hdestination⟩ := hloads [] plan [] later [] rfl
  exact ⟨hslop, plan, later, hplans, (hrule _).2 rfl, hsource, hdestination⟩

end Planner
end Placement
