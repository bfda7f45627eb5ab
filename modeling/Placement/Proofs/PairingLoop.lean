import Placement.Proofs.Pairing

/-!
# The pairing loop without fuel

`Planner.Pairs` says how the loop runs that pairs the nodes above their targets with those below: it goes on
while neither queue is empty, and a move that cannot be made ends it with an error.  The loop has one outcome
(`Planner.Pairs.unique`), and `Planner.movesFor` computes it for all standings (`Planner.pairs_movesFor_iff`):
every move takes one from the sum of the surpluses, so the fuel lasts.  On its way the loop tells of the moves that it
answers with and of no others (`Planner.Pairs.announces`), and how loud it does so changes nothing else
(`Planner.Pairs.relevel`).
-/

namespace Placement
set_option autoImplicit false

namespace Planner

/-- The outcome of the loop and what it tells of, when it starts with given queues. -/
inductive Pairs (loud : Bool) :
    Queue Standing → Queue Standing → Logged (Except PlanError (List MovePlan)) → Prop
  /-- One of the queues is empty. -/
  | done {above below : Queue Standing}
      (h : above.pop? Standing.heavierFirst = none ∨ below.pop? Standing.lighterFirst = none) :
      Pairs loud above below (.silent (.ok []))
  /-- The source has no shard left or is the destination. -/
  | fail {above above' below below' : Queue Standing} {source destination : Standing} {e : PlanError}
      (hsource : above.pop? Standing.heavierFirst = some (source, above'))
      (hdestination : below.pop? Standing.lighterFirst = some (destination, below'))
      (h : nextMove source destination = .error e) : Pairs loud above below (.silent (.error e))
  /-- The move is told of, and both ends go back to their queues unless they have reached their targets. -/
  | move {above above' below below' : Queue Standing} {source destination : Standing} {plan : MovePlan}
      {rest : List Shard} {outcome : Logged (Except PlanError (List MovePlan))}
      (hsource : above.pop? Standing.heavierFirst = some (source, above'))
      (hdestination : below.pop? Standing.lighterFirst = some (destination, below'))
      (h : nextMove source destination = .ok (plan, rest))
      (hmore : Pairs loud
        (if (source.give rest).isAbove then above'.push Standing.heavierFirst (source.give rest) else above')
        (if destination.take.isBelow then below'.push Standing.lighterFirst destination.take else below')
        outcome) :
      Pairs loud above below (andThen plan loud outcome)

variable {loud : Bool}

theorem Pairs.unique {above below : Queue Standing} {outcome other : Logged (Except PlanError (List MovePlan))}
    (h : Pairs loud above below outcome) (hother : Pairs loud above below other) : outcome = other := by
  induction h generalizing other with
  | done h =>
    cases hother with
    | done => rfl
    | fail hsource hdestination | move hsource hdestination =>
      rw [hsource, hdestination] at h
      simp at h
  | fail hsource hdestination h =>
    cases hother with
    | done h' =>
      rw [hsource, hdestination] at h'
      simp at h'
    | fail hsource' hdestination' h' =>
      cases hsource.symm.trans hsource'
      cases hdestination.symm.trans hdestination'
      cases h.symm.trans h'
      rfl
    | move hsource' hdestination' h' =>
      cases hsource.symm.trans hsource'
      cases hdestination.symm.trans hdestination'
      cases h.symm.trans h'
  | move hsource hdestination h hmore ih =>
    cases hother with
    | done h' =>
      rw [hsource, hdestination] at h'
      simp at h'
    | fail hsource' hdestination' h' =>
      cases hsource.symm.trans hsource'
      cases hdestination.symm.trans hdestination'
      cases h.symm.trans h'
    | move hsource' hdestination' h' hmore' =>
      cases hsource.symm.trans hsource'
      cases hdestination.symm.trans hdestination'
      cases h.symm.trans h'
      rw [ih hmore']

theorem pairs_pairUp (loud : Bool) (fuel : Nat) {above : Queue Standing} (below : Queue Standing)
    (habove : ∀ s ∈ above.toList, s.isAbove = true)
    (hfuel : (above.toList.map Standing.surplus).sum ≤ fuel) :
    Pairs loud above below (pairUp loud fuel above below) := by
  induction fuel generalizing above below with
  | zero =>
    -- A member of `above` would have a surplus, but no fuel means that there is none.
    have hempty : above.toList = [] := by
      rw [List.eq_nil_iff_forall_not_mem]
      intro s hs
      have hzero := List.sum_eq_zero_iff.1 (Nat.le_zero.1 hfuel) s.surplus (List.mem_map_of_mem hs)
      have hpos := s.isAbove_iff.1 (habove s hs)
      omega
    exact .done (.inl (Queue.pop?_of_toList_eq_nil hempty))
  | succ fuel ih =>
    cases hsource : above.pop? Standing.heavierFirst with
    | none =>
      have hstop : pairUp loud (fuel + 1) above below = .silent (.ok []) := by simp [pairUp, hsource]
      exact hstop ▸ .done (.inl hsource)
    | some popped =>
      obtain ⟨source, above'⟩ := popped
      cases hdestination : below.pop? Standing.lighterFirst with
      | none =>
        have hstop : pairUp loud (fuel + 1) above below = .silent (.ok []) := by simp [pairUp, hsource, hdestination]
        exact hstop ▸ .done (.inr hdestination)
      | some popped =>
        obtain ⟨destination, below'⟩ := popped
        cases hmove : nextMove source destination with
        | error e =>
          have hstop : pairUp loud (fuel + 1) above below = .silent (.error e) := by
            simp [pairUp, hsource, hdestination, hmove]
          exact hstop ▸ .fail hsource hdestination hmove
        | ok moved =>
          obtain ⟨plan, rest⟩ := moved
          have hgo : pairUp loud (fuel + 1) above below = andThen plan loud (pairUp loud fuel
              (if (source.give rest).isAbove then above'.push Standing.heavierFirst (source.give rest)
                else above')
              (if destination.take.isBelow then below'.push Standing.lighterFirst destination.take
                else below')) := by
            simp [pairUp, hsource, hdestination, hmove]
          have hperm := Queue.perm_of_pop? hsource
          have hpos := source.isAbove_iff.1 (habove source (hperm.mem_iff.2 List.mem_cons_self))
          have hothers : above'.toList.filter Standing.isAbove = above'.toList :=
            List.filter_eq_self.2 fun s hs => habove s (hperm.mem_iff.2 (List.mem_cons_of_mem _ hs))
          -- The source comes back with one shard less to give, or it has reached its target and stays out.
          have hback := Queue.toList_ite_push Standing.heavierFirst (.of_eq hothers.symm) (source.give rest)
          rw [hgo]
          refine .move hsource hdestination hmove (ih _ ?_ ?_)
          · intro s hs
            exact (List.mem_filter.1 (hback.mem_iff.1 hs)).2
          · have hgive := Standing.surplus_give hpos rest
            rw [(hperm.map Standing.surplus).sum_eq, List.map_cons, List.sum_cons] at hfuel
            rw [(hback.map Standing.surplus).sum_eq, sum_filter_of_pos Standing.isAbove_iff, List.map_cons,
              List.sum_cons]
            omega

/-- For all standings, solvable or not, the fuel is enough and the loop ends. -/
theorem pairs_movesFor_iff (loud : Bool) (all : List Standing)
    (outcome : Logged (Except PlanError (List MovePlan))) :
    Pairs loud (.ofList Standing.heavierFirst (all.filter Standing.isAbove))
      (.ofList Standing.lighterFirst (all.filter Standing.isBelow)) outcome ↔ outcome = movesFor loud all := by
  have hmembers := Queue.toList_ofList Standing.heavierFirst (all.filter Standing.isAbove)
  have hfuel : ((Queue.ofList Standing.heavierFirst (all.filter Standing.isAbove)).toList.map
      Standing.surplus).sum ≤ (all.filter Standing.isAbove).foldl (fun n s => n + s.surplus) 0 := by
    rw [(hmembers.map Standing.surplus).sum_eq, List.sum_eq_foldl, List.foldl_map]
  have hpairs := pairs_pairUp loud _ (.ofList Standing.lighterFirst (all.filter Standing.isBelow))
    (fun s hs => (List.mem_filter.1 (hmembers.mem_iff.1 hs)).2) hfuel
  constructor
  · exact fun h => h.unique hpairs
  · rintro rfl
    exact hpairs

/-! ## What the loop tells of -/

/-- Every move of an answer has been told of, in the order of the answer, and nothing else has been. -/
def Announces (loud : Bool) (outcome : Logged (Except PlanError (List MovePlan))) : Prop :=
  ∀ plans, outcome.result = .ok plans → outcome.events = plans.map (.move · loud)

/-- A move is told of before what comes after it. -/
theorem Announces.andThen {later : Logged (Except PlanError (List MovePlan))} (h : Announces loud later)
    (plan : MovePlan) : Announces loud (andThen plan loud later) := by
  intro plans hplans
  cases hlater : later.result with
  | error e =>
    rw [Planner.andThen, hlater] at hplans
    cases hplans
  | ok more =>
    rw [Planner.andThen, hlater] at hplans
    cases hplans
    rw [List.map_cons, ← h more hlater]
    rfl

theorem Pairs.announces {above below : Queue Standing} {outcome : Logged (Except PlanError (List MovePlan))}
    (h : Pairs loud above below outcome) : Announces loud outcome := by
  induction h with
  | done h =>
    rintro plans ⟨⟩
    rfl
  | fail hsource hdestination h => nofun
  | move hsource hdestination h hmore ih => exact ih.andThen _

theorem announces_movesFor (loud : Bool) (all : List Standing) : Announces loud (movesFor loud all) :=
  ((pairs_movesFor_iff loud all _).2 rfl).announces

/-- The same event of a planner that is loud or not. -/
def relevel (loud : Bool) : Event → Event
  | .move plan _ => .move plan loud
  | e => e

theorem Pairs.relevel {above below : Queue Standing} {outcome : Logged (Except PlanError (List MovePlan))}
    (h : Pairs loud above below outcome) (other : Bool) :
    Pairs other above below ⟨outcome.result, outcome.events.map (Planner.relevel other)⟩ := by
  induction h with
  | done h => exact .done h
  | fail hsource hdestination h => exact .fail hsource hdestination h
  | move hsource hdestination h hmore ih => exact .move hsource hdestination h ih

theorem movesFor_relevel (loud other : Bool) (all : List Standing) :
    movesFor other all = ⟨(movesFor loud all).result, (movesFor loud all).events.map (relevel other)⟩ :=
  ((pairs_movesFor_iff other all _).1 (((pairs_movesFor_iff loud all _).2 rfl).relevel other)).symm

theorem movesFor_result (loud other : Bool) (all : List Standing) :
    (movesFor other all).result = (movesFor loud all).result := by
  rw [movesFor_relevel loud other]

end Planner
end Placement
