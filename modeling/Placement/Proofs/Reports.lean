import Placement.Proofs.Retained
import Placement.Proofs.Tolerance

/-!
# What the events say

A planner that answers with moves has told of each of them in their order, and of their number in the end; a planner
that answers with none, or with an error, has told of none (`Planner.exists_trace`, `Planner.events_of_error`).  The
moves are told of in the pairing loop, so what it announces is all there is to know about them.  How loud a planner is
makes a difference to the levels of the moves only (`Planner.balance_relevel`).  After a restart the number of returned shards that is told is the number of
shards at the addresses of their previous owners (`Retain.Outcome.ncard_back`).
-/

namespace Placement
set_option autoImplicit false

/-! ## Events -/

namespace Event

/-- The move that an event tells of. -/
def move? : Event → Option MovePlan
  | .move plan _ => some plan
  | _ => none

/-- The number of moves that an event states. -/
def moveCount? : Event → Option Nat
  | .planned count _ => some count
  | _ => none

/-- No word of moves, and no warning. -/
structure Quiet (e : Event) : Prop where
  move : e.move? = none
  count : e.moveCount? = none
  unwarned : e.level ≠ .warning

/-- One event says what another one says, at the same level unless they tell of a move. -/
structure Echoes (e f : Event) : Prop where
  move : f.move? = e.move?
  component : f.component = e.component
  text : ∀ elapsed, f.text elapsed = e.text elapsed
  same : e.move? = none → f = e

theorem quiet_noNodesToBalance : Quiet .noNodesToBalance := ⟨rfl, rfl, nofun⟩

theorem quiet_clusterLoad (summary : LoadSummary) : Quiet (.clusterLoad summary) := ⟨rfl, rfl, nofun⟩

theorem quiet_alreadyBalanced (summary : LoadSummary) (slop : Slop) : Quiet (.alreadyBalanced summary slop) :=
  ⟨rfl, rfl, nofun⟩

theorem echoes_relevel (e : Event) (loud : Bool) : e.Echoes (Planner.relevel loud e) := by
  cases e with
  | move plan own => exact ⟨rfl, rfl, fun _ => rfl, nofun⟩
  | _ => exact ⟨rfl, rfl, fun _ => rfl, fun _ => rfl⟩

end Event

/-! ## Events in writing -/

namespace Record

theorem ofEvents_append {elapsed : String} {es : List Event} {records : List Record}
    (h : ofEvents elapsed es = (records, .ok ())) (fs : List Event) :
    ofEvents elapsed (es ++ fs) = (records ++ (ofEvents elapsed fs).1, (ofEvents elapsed fs).2) := by
  induction es generalizing records with
  | nil =>
    cases h
    rfl
  | cons e es ih =>
    rw [List.cons_append, ofEvents]
    rw [ofEvents] at h
    cases htext : e.text elapsed with
    | error cause =>
      rw [htext] at h
      cases h
    | ok text =>
      rw [htext] at h
      obtain ⟨rfl, hrest⟩ := Prod.mk.inj h
      rw [ih (Prod.ext rfl hrest)]
      rfl

/-- The record of a move that has the given text. -/
def ofMove (loud : Bool) (line : String) : Record :=
  ⟨if loud then .info else .debug, .planner, "Move plan " ++ line⟩

theorem ofEvents_moves (elapsed : String) {plans : List MovePlan} {lines : List String}
    (h : List.Forall₂ (fun plan line => plan.text = .ok line) plans lines) (loud : Bool) :
    ofEvents elapsed (plans.map (.move · loud)) = (lines.map (ofMove loud), .ok ()) := by
  induction h with
  | nil => rfl
  | cons hline _ ih =>
    rw [List.map_cons, ofEvents, Event.text, hline, ih]
    rfl

end Record

/-! ## Planning -/

namespace Planner

/-- The events of an answer: some that come before the moves, the moves, and their number if there are any. -/
def trace (opening : List Event) (summary : LoadSummary) (loud : Bool) (plans : List MovePlan) : List Event :=
  opening ++ plans.map (.move · loud) ++ if plans = [] then [] else [.planned plans.length summary]

/-- What some events say about the moves that a planner answers with. -/
structure Reports (loud : Bool) (summary : LoadSummary) (plans : List MovePlan) (events : List Event) : Prop where
  /-- Every move comes up once, in the order of the answer. -/
  moves : events.filterMap Event.move? = plans
  names : ∀ e ∈ events, ∀ plan, e.move? = some plan → ∀ elapsed,
    e.text elapsed = plan.text.map ("Move plan " ++ ·)
  level : ∀ e ∈ events, ∀ plan, e.move? = some plan → e.level = if loud then .info else .debug
  counts : events.filterMap Event.moveCount? = if plans = [] then [] else [plans.length]
  last : plans ≠ [] → events.getLast? = some (.planned plans.length summary)
  unwarned : ∀ e ∈ events, e.level ≠ .warning
  /-- Where the figures and the moves can be written, this is what is read in the log. -/
  written : plans ≠ [] → ∀ elapsed figures lines, summary.text = .ok figures →
    List.Forall₂ (fun plan line => plan.text = .ok line) plans lines → Record.ofEvents elapsed events =
    ([⟨.debug, .planner, "Cluster load " ++ figures⟩] ++ lines.map (Record.ofMove loud) ++
      [⟨.info, .planner, "Calculated " ++ Numeral.ofNat plans.length ++ " move plans for " ++ figures ++ " in " ++
        elapsed ++ "ms"⟩], .ok ())

section
variable {opening : List Event} {summary : LoadSummary} {loud : Bool} {plans : List MovePlan} {e : Event}

theorem mem_trace_iff : e ∈ trace opening summary loud plans ↔
    e ∈ opening ∨ (∃ plan ∈ plans, .move plan loud = e) ∨ plans ≠ [] ∧ e = .planned plans.length summary := by
  by_cases hplans : plans = [] <;> simp [trace, hplans]

theorem eq_move_of_mem_trace (hquiet : ∀ e ∈ opening, e.Quiet) (he : e ∈ trace opening summary loud plans)
    {plan : MovePlan} (hplan : e.move? = some plan) : e = .move plan loud := by
  obtain hopening | ⟨own, -, rfl⟩ | ⟨-, rfl⟩ := mem_trace_iff.1 he
  · rw [(hquiet e hopening).move] at hplan
    cases hplan
  · cases hplan
    rfl
  · cases hplan

theorem filterMap_move?_trace (hquiet : ∀ e ∈ opening, e.Quiet) :
    (trace opening summary loud plans).filterMap Event.move? = plans := by
  have hopening : opening.filterMap Event.move? = [] := List.filterMap_eq_nil_iff.2 fun e he => (hquiet e he).move
  have hplans : (plans.map (Event.move · loud)).filterMap Event.move? = plans := by
    rw [List.filterMap_map]
    exact List.filterMap_some
  rw [trace, List.filterMap_append, List.filterMap_append, hopening, hplans]
  split_ifs <;> simp [Event.move?]

theorem filterMap_moveCount?_trace (hquiet : ∀ e ∈ opening, e.Quiet) :
    (trace opening summary loud plans).filterMap Event.moveCount? = if plans = [] then [] else [plans.length] := by
  have hopening : opening.filterMap Event.moveCount? = [] :=
    List.filterMap_eq_nil_iff.2 fun e he => (hquiet e he).count
  have hplans : (plans.map (Event.move · loud)).filterMap Event.moveCount? = [] := by
    rw [List.filterMap_map, List.filterMap_eq_nil_iff]
    exact fun _ _ => rfl
  rw [trace, List.filterMap_append, List.filterMap_append, hopening, hplans]
  split_ifs <;> rfl

theorem ofEvents_trace (hne : plans ≠ []) {elapsed figures : String} {lines : List String}
    (hfigures : summary.text = .ok figures)
    (hlines : List.Forall₂ (fun plan line => plan.text = .ok line) plans lines) :
    Record.ofEvents elapsed (trace [.clusterLoad summary] summary loud plans) =
      ([⟨.debug, .planner, "Cluster load " ++ figures⟩] ++ lines.map (Record.ofMove loud) ++
        [⟨.info, .planner, "Calculated " ++ Numeral.ofNat plans.length ++ " move plans for " ++ figures ++ " in " ++
          elapsed ++ "ms"⟩], .ok ()) := by
  have hload : Record.ofEvents elapsed [.clusterLoad summary] =
      ([⟨.debug, .planner, "Cluster load " ++ figures⟩], .ok ()) := by
    rw [Record.ofEvents, Event.text, hfigures]
    rfl
  have hcount : Record.ofEvents elapsed [.planned plans.length summary] =
      ([⟨.info, .planner, "Calculated " ++ Numeral.ofNat plans.length ++ " move plans for " ++ figures ++ " in " ++
        elapsed ++ "ms"⟩], .ok ()) := by
    rw [Record.ofEvents, Event.text, hfigures]
    rfl
  rw [trace, if_neg hne, List.append_assoc, Record.ofEvents_append hload,
    Record.ofEvents_append (Record.ofEvents_moves elapsed hlines loud), hcount, List.append_assoc]

theorem reports_trace (hquiet : ∀ e ∈ opening, e.Quiet) (hopening : plans ≠ [] → opening = [.clusterLoad summary]) :
    Reports loud summary plans (trace opening summary loud plans) where
  moves := filterMap_move?_trace hquiet
  names e he plan hplan elapsed := by
    rw [eq_move_of_mem_trace hquiet he hplan]
    rfl
  level e he plan hplan := by
    rw [eq_move_of_mem_trace hquiet he hplan]
    rfl
  counts := filterMap_moveCount?_trace hquiet
  last hne := by rw [trace, if_neg hne, List.getLast?_concat]
  unwarned e he := by
    obtain hearly | ⟨plan, -, rfl⟩ | ⟨-, rfl⟩ := mem_trace_iff.1 he
    · exact (hquiet e hearly).unwarned
    · cases loud <;> simp [Event.level]
    · simp [Event.level]
  written hne elapsed figures lines hfigures hlines := by
    rw [hopening hne]
    exact ofEvents_trace hne hfigures hlines

end

/-- What a planner answers at each of its exits, and what it has told of by then.  The exit behind the pairing loop is
for unbalanced clusters, so the number of moves that is stated there is never zero. -/
inductive Exits (p : Planner) (s : Snapshot) : Logged (Except PlanError (List MovePlan)) → Prop
  | empty : Exits p s ⟨.ok [], [.noNodesToBalance]⟩
  | trivial : Exits p s ⟨.ok [], [.clusterLoad s.summary]⟩
  | inexact (slop : InexactSlop) : Exits p s ⟨.error (.inexactSlop slop), [.clusterLoad s.summary]⟩
  | tolerated : Exits p s ⟨.ok [], [.clusterLoad s.summary, .alreadyBalanced s.summary p.slop]⟩
  | moved {plans : List MovePlan} (hne : plans ≠ []) :
    Exits p s ⟨.ok plans, trace [.clusterLoad s.summary] s.summary p.logPlans plans⟩

theorem exits_balance (p : Planner) (s : Snapshot) : Exits p s (p.balance s) := by
  unfold balance
  split_ifs with hnone
  · exact .empty
  dsimp only
  split_ifs with htrivial
  · exact .trivial
  cases htolerates : p.slop.tolerates s.summary with
  | error slop => exact .inexact slop
  | ok tolerated =>
    cases tolerated with
    | true => exact .tolerated
    | false =>
      obtain ⟨plans, hplans, hreaches⟩ := exists_movesFor p.logPlans s
      have hne := hreaches.ne_nil (Slop.not_isBalanced_of_tolerates htolerates)
      -- The events in the middle are those of the loop.
      have hevents := announces_movesFor p.logPlans _ plans hplans
      have hmoved : Exits p s ⟨.ok plans, trace [.clusterLoad s.summary] s.summary p.logPlans plans⟩ := .moved hne
      rw [trace, if_neg hne, ← hevents] at hmoved
      simp only [hplans]
      exact hmoved

theorem exists_trace {p : Planner} {s : Snapshot} {plans : List MovePlan} (h : (p.balance s).result = .ok plans) :
    ∃ opening, (∀ e ∈ opening, e.Quiet) ∧ (plans ≠ [] → opening = [.clusterLoad s.summary]) ∧
      (p.balance s).events = trace opening s.summary p.logPlans plans := by
  have hload := Event.quiet_clusterLoad s.summary
  have hexit := p.exits_balance s
  generalize p.balance s = answer at h hexit
  cases hexit with
  | empty =>
    cases h
    exact ⟨_, List.forall_mem_singleton.2 Event.quiet_noNodesToBalance, fun hne => absurd rfl hne, rfl⟩
  | trivial =>
    cases h
    exact ⟨_, List.forall_mem_singleton.2 hload, fun _ => rfl, rfl⟩
  | inexact slop => cases h
  | tolerated =>
    cases h
    exact ⟨_, List.forall_mem_cons.2 ⟨hload, List.forall_mem_singleton.2 (Event.quiet_alreadyBalanced _ _)⟩,
      fun hne => absurd rfl hne, rfl⟩
  | moved hne =>
    cases h
    exact ⟨_, List.forall_mem_singleton.2 hload, fun _ => rfl, rfl⟩

theorem events_of_error {p : Planner} {s : Snapshot} {e : PlanError} (h : (p.balance s).result = .error e) :
    (p.balance s).events = [.clusterLoad s.summary] := by
  have hexit := p.exits_balance s
  generalize p.balance s = answer at h hexit
  cases hexit with
  | inexact slop => rfl
  | _ => cases h

/-- Only the moves know how loud the planner is. -/
theorem balance_relevel {p q : Planner} (hslop : q.slop = p.slop) (s : Snapshot) :
    q.balance s = ⟨(p.balance s).result, (p.balance s).events.map (relevel q.logPlans)⟩ := by
  unfold balance
  rw [hslop, movesFor_relevel p.logPlans q.logPlans]
  split_ifs with hnone
  · rfl
  dsimp only
  split_ifs with htrivial
  · rfl
  cases p.slop.tolerates s.summary with
  | error slop => rfl
  | ok tolerated =>
    cases tolerated with
    | true => simp [relevel]
    | false => cases (movesFor p.logPlans (standings s)).result <;> simp [relevel]

theorem forall₂_echoes {p q : Planner} (hslop : q.slop = p.slop) (s : Snapshot) :
    List.Forall₂ Event.Echoes (p.balance s).events (q.balance s).events := by
  rw [balance_relevel hslop, List.forall₂_map_right_iff, List.forall₂_same]
  exact fun e _ => e.echoes_relevel q.logPlans

end Planner

/-! ## After a restart -/

namespace Retain
variable {previous : Table Shard (Option Node)} {nodes : List Node} {result : Table Node (List Shard)}
  {returned moved : List (Shard × Node)}

/-- The shards that are placed on a node with the host and the port of their previous owner. -/
def back (previous : Table Shard (Option Node)) (result : Table Node (List Shard)) : Set Shard :=
  {shard | ∃ owner node, previous.get? shard = some (some owner) ∧ shard ∈ result.row node ∧
    node.host = owner.host ∧ node.port = owner.port}

namespace Outcome

/-- A shard that is dealt has no node to be back on, so only those that returned are back. -/
theorem mem_back_iff (h : Outcome previous nodes result returned moved) (shard : Shard) :
    shard ∈ back previous result ↔ shard ∈ returned.map Prod.fst := by
  constructor
  · rintro ⟨owner, node, howner, hshard, hhost, hport⟩
    have hnode := h.node_mem node (Table.mem_keys_of_mem_row hshard)
    have haddress := (Node.address_eq_iff node owner).2 ⟨hhost, hport⟩
    obtain ⟨home, hhome⟩ := exists_home ⟨node, hnode, haddress⟩
    exact List.mem_map_of_mem (f := Prod.fst) (h.mem_returned howner hhome)
  · intro hshard
    obtain ⟨e, he, rfl⟩ := List.mem_map.1 hshard
    obtain ⟨owner, howner, hhome⟩ := h.returned_home e he
    obtain ⟨hhost, hport⟩ := (Node.address_eq_iff e.2 owner).1 hhome.address
    exact ⟨owner, e.2, howner, h.mem_row_home howner hhome, hhost, hport⟩

theorem ncard_back (h : Outcome previous nodes result returned moved) :
    (back previous result).ncard = returned.length := by
  have hset : back previous result = (returned.map Prod.fst).toFinset := by
    ext shard
    exact (h.mem_back_iff shard).trans List.mem_toFinset.symm
  rw [hset, Set.ncard_coe_finset, List.toFinset_card_of_nodup h.returned_shards_nodup, List.length_map]

theorem length_returned_add (h : Outcome previous nodes result returned moved) :
    returned.length + (orphans nodes previous).length = previous.size := by
  have hreturned := congrArg List.length h.returned_shards
  rw [List.length_map, List.length_map] at hreturned
  rw [orphans_eq, List.length_map, hreturned]
  exact (List.length_eq_length_filter_add _).symm

end Outcome

theorem events_assign (hprevious : previous.isEmpty = false) (hne : nodes ≠ []) :
    (assign previous nodes).events = [.retained (previous.size - (orphans nodes previous).length) previous.size
      (orphans nodes previous).length] := by
  obtain ⟨moved, hdeal, -⟩ := exists_deal_orphans previous hne
  have horphans : orphans (Ordered.distinct nodes) previous = orphans nodes previous := by
    rw [orphans_eq, orphans_eq, returns_of_mem_iff fun node => Ordered.mem_distinct node nodes]
  rw [← horphans]
  simp only [assign, hprevious, List.isEmpty_eq_false_iff.2 (distinct_ne_nil hne), Bool.false_eq_true, if_false, hdeal]

end Retain

/-- The events of planning and of sending shards back say what has been decided.  Planning without an answer has told of
no moves, and this is for slops without an exact value only. -/
theorem events_agree_with_results :
    (∀ (p : Planner) (s : Snapshot),
      (p.slop.isExact = true → ∃ plans, (p.balance s).result = .ok plans) ∧
      (∀ plans, (p.balance s).result = .ok plans →
        Planner.Reports p.logPlans s.summary plans (p.balance s).events) ∧
      (∀ e, (p.balance s).result = .error e → (p.balance s).events = [.clusterLoad s.summary]) ∧
      ∀ other : Planner, other.slop = p.slop → (other.balance s).result = (p.balance s).result ∧
        List.Forall₂ Event.Echoes (p.balance s).events (other.balance s).events) ∧
    ∀ (previous : Table Shard (Option Node)) (nodes : List Node), previous.isEmpty = false → nodes ≠ [] →
      ∃ kept moved, (Retain.assign previous nodes).events = [.retained kept previous.size moved] ∧
        kept = (Retain.back previous (Retain.assign previous nodes).result).ncard ∧ kept + moved = previous.size ∧
        ∀ elapsed, Record.ofEvents elapsed (Retain.assign previous nodes).events =
          ([⟨.info, .retain, "Retained " ++ Numeral.ofNat kept ++ " of " ++ Numeral.ofNat previous.size ++
            " shards on their previous nodes; " ++ Numeral.ofNat moved ++ " reassigned"⟩], .ok ()) := by
  constructor
  · intro p s
    refine ⟨fun hslop => p.exists_balance hslop s, fun plans hplans => ?_, fun e => Planner.events_of_error,
      fun other hother => ⟨?_, Planner.forall₂_echoes hother s⟩⟩
    · obtain ⟨opening, hquiet, hopening, htrace⟩ := Planner.exists_trace hplans
      rw [htrace]
      exact Planner.reports_trace hquiet hopening
    · rw [Planner.balance_relevel hother]
  · intro previous nodes hprevious hne
    obtain ⟨returned, moved, houtcome⟩ := Retain.exists_outcome previous hne
    have hevents := Retain.events_assign hprevious hne
    have hsum := houtcome.length_returned_add
    refine ⟨_, _, hevents, ?_, ?_, fun elapsed => ?_⟩
    · rw [houtcome.ncard_back]
      omega
    · omega
    · rw [hevents]
      rfl

theorem events_agree_with_results_lopsided :
    Planner.strict.slop.isExact = true ∧ Retain.recorded.isEmpty = false ∧ Retain.relisted ≠ [] ∧
      (∃ plan later, (Planner.strict.balance .lopsided).result = .ok [plan, later] ∧
        (Planner.strict.balance .lopsided).events.filterMap Event.move? = [plan, later] ∧
        (Planner.strict.balance .lopsided).events.getLast? = some (.planned 2 Snapshot.lopsided.summary)) ∧
      (Retain.back Retain.recorded (Retain.assign Retain.recorded Retain.relisted).result).ncard = 2 := by
  have hprevious : Retain.recorded.isEmpty = false := by decide
  have hne : Retain.relisted ≠ [] := by decide
  have hcount : (Planner.strict.balance .lopsided).result.map List.length = .ok 2 := by cbv
  have hkept : (Retain.assign Retain.recorded Retain.relisted).events = [.retained 2 4 2] :=
    (Retain.events_assign hprevious hne).trans (by decide)
  obtain ⟨hplanning, hretaining⟩ := events_agree_with_results
  obtain ⟨hanswers, hreports, -⟩ := hplanning .strict .lopsided
  obtain ⟨plans, hplans⟩ := hanswers Planner.strict_isExact
  have hmoves := hreports plans hplans
  rw [hplans] at hcount
  obtain ⟨plan, later, rfl⟩ := List.length_eq_two.1 (Except.ok.inj hcount)
  obtain ⟨kept, moved, hevents, hback, -⟩ := hretaining _ _ hprevious hne
  rw [hkept] at hevents
  cases hevents
  exact ⟨Planner.strict_isExact, hprevious, hne, ⟨plan, later, hplans, hmoves.moves, hmoves.last (List.cons_ne_nil _ _)⟩, hback.symm⟩

end Placement
