import Placement.Snapshot

/-!
# Ownership

An `Ownership` forgets the order in which nodes list their shards: it knows the nodes and the owner of
every shard.  `Ownership.step` is what a move does to it, and `Snapshot.ownership` is the ownership of a
snapshot, in which the greatest node that hosts a shard owns it.
-/

namespace Placement
set_option autoImplicit false

structure Ownership where
  isNode : Node → Bool
  owner : Shard → Option Node

namespace Ownership

/-- The shard of a move goes from its owner to the destination; all other shards stay. -/
def step (o : Ownership) (plan : MovePlan) : Except SnapshotError Ownership :=
  if o.isNode plan.destination = false then .error (.unknownNode plan.destination)
  else if o.owner plan.shard ≠ some plan.source then
    .error (.stalePlan plan (o.owner plan.shard))
  else .ok ⟨o.isNode, fun shard => if shard = plan.shard then some plan.destination else o.owner shard⟩

def run : Ownership → List MovePlan → Except SnapshotError Ownership
  | o, [] => .ok o
  | o, plan :: plans =>
    match o.step plan with
    | .ok next => next.run plans
    | .error e => .error e

/-- One run after another is a run of both lists. -/
theorem run_append (o : Ownership) (plans more : List MovePlan) :
    o.run (plans ++ more) = (o.run plans).bind fun next => next.run more := by
  induction plans generalizing o with
  | nil => rfl
  | cons plan plans ih =>
    simp only [List.cons_append, run]
    cases o.step plan with
    | ok next => exact ih next
    | error e => rfl

/-- All that a move can do. -/
theorem step_eq_ok_iff (o next : Ownership) (plan : MovePlan) :
    o.step plan = .ok next ↔
      o.isNode plan.destination = true ∧ o.owner plan.shard = some plan.source ∧
        next = ⟨o.isNode, fun shard => if shard = plan.shard then some plan.destination else o.owner shard⟩ := by
  rw [step]
  by_cases hnode : o.isNode plan.destination = true
  · by_cases howner : o.owner plan.shard = some plan.source
    · simp [hnode, howner, eq_comm]
    · simp [hnode, howner]
  · simp [hnode]

theorem run_cons_eq_ok_iff (o last : Ownership) (plan : MovePlan) (plans : List MovePlan) :
    o.run (plan :: plans) = .ok last ↔ ∃ next, o.step plan = .ok next ∧ next.run plans = .ok last := by
  rw [run]
  cases o.step plan with
  | ok next => simp
  | error e => simp

end Ownership

def Snapshot.ownership (s : Snapshot) : Ownership := ⟨s.contains, s.ownerOf⟩

end Placement
