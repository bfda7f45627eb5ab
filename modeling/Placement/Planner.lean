import Placement.Fault
import Placement.Log
import Placement.Queue
import Placement.Snapshot

/-!
# Planning moves

A `Planner` finds the moves after which every node holds the floor or the ceiling of the average load.
`Targets` says which nodes get the ceiling, a `Standing` is a node on the way to its target, and
`Planner.pairUp` repeatedly moves a shard from the most loaded node above its target to the least
loaded one below, and tells of each move as it makes it.  `Planner.scan` is the same rule by full scans
of the nodes.
-/

namespace Placement
set_option autoImplicit false

/-! ## Targets -/

/-- The load that every node is to have: the ceiling for the nodes in `raised`, else the floor. -/
structure Targets where
  floor : Int
  ceiling : Int
  raised : List Node

namespace Targets

def of (t : Targets) (node : Node) : Int := if node ∈ t.raised then t.ceiling else t.floor

structure Loaded where
  load : Int
  node : Node

def Loaded.heavierFirst (a b : Loaded) : Bool :=
  decide (b.load < a.load) || (decide (a.load = b.load) && decide (a.node ≤ b.node))

def Loaded.lighterFirst (a b : Loaded) : Bool :=
  decide (a.load < b.load) || (decide (a.load = b.load) && decide (a.node ≤ b.node))

/-- The shards that are left over when every node has the floor raise as many nodes to the ceiling:
first nodes that have it already, the heaviest first, then nodes below the floor, the lightest first,
then nodes at the floor. -/
def ofLoads (loads : List Loaded) (summary : LoadSummary) : Targets :=
  let floor := summary.floorAverage
  let ceiling := summary.ceilAverage
  let slots := summary.shardCount - floor * summary.nodeCount
  let heavy := (loads.filter fun l => decide (ceiling ≤ l.load)).mergeSort Loaded.heavierFirst
  let light := (loads.filter fun l => decide (l.load < floor)).mergeSort Loaded.lighterFirst
  let level := (loads.filter fun l => decide (l.load = floor)).mergeSort Loaded.lighterFirst
  ⟨floor, ceiling, ((heavy ++ light ++ level).map Loaded.node).take slots.toNat⟩

end Targets

/-! ## Standings -/

/-- A node with its current load, its target and the shards that it can still give away. -/
structure Standing where
  node : Node
  load : Int
  target : Int
  shards : List Shard

namespace Standing

def heavierFirst (a b : Standing) : Bool :=
  decide (b.load < a.load) || (decide (a.load = b.load) && decide (a.node ≤ b.node))

def lighterFirst (a b : Standing) : Bool :=
  decide (a.load < b.load) || (decide (a.load = b.load) && decide (a.node ≤ b.node))

def isAbove (s : Standing) : Bool := decide (s.target < s.load)

def isBelow (s : Standing) : Bool := decide (s.load < s.target)

/-- How many shards a node holds beyond its target. -/
def surplus (s : Standing) : Nat := (s.load - s.target).toNat

def give (s : Standing) (rest : List Shard) : Standing := ⟨s.node, s.load - 1, s.target, rest⟩

def take (s : Standing) : Standing := ⟨s.node, s.load + 1, s.target, s.shards⟩

end Standing

/-! ## Pairing -/

inductive PlanError where
  | negativeSlop
  /-- A slop that stands for no rational number. -/
  | inexactSlop (slop : InexactSlop)
  /-- A node above its target that has no shard left to give away. -/
  | noShardLeft (node : Node)
  /-- A node that is both above and below its target. -/
  | sameNode (node : Node)
deriving DecidableEq

def PlanError.message : PlanError → String
  | .negativeSlop => "slop must be >= 0"
  | .inexactSlop slop => slop.message
  | .noShardLeft _ => "pop from an empty deque"
  | .sameNode node => (Fault.sameNode node).message

namespace Planner

/-- The move of the next shard of one node to another one, and the shards left behind. -/
def nextMove (source destination : Standing) : Except PlanError (MovePlan × List Shard) :=
  match source.shards with
  | [] => .error (.noShardLeft source.node)
  | shard :: rest =>
    if h : source.node = destination.node then .error (.sameNode source.node)
    else .ok (⟨shard, source.node, destination.node, h⟩, rest)

/-- A move, told of when it is made, in front of what comes after it. -/
def andThen (plan : MovePlan) (loud : Bool) (later : Logged (Except PlanError (List MovePlan))) :
    Logged (Except PlanError (List MovePlan)) :=
  ⟨later.result.map (plan :: ·), .move plan loud :: later.events⟩

/-- One queue of the nodes above their targets, the heaviest in front, and one of those below, the
lightest in front.  A node that has reached its target does not go back to its queue. -/
def pairUp (loud : Bool) :
    Nat → Queue Standing → Queue Standing → Logged (Except PlanError (List MovePlan))
  | 0, _, _ => .silent (.ok [])
  | fuel + 1, above, below =>
    match above.pop? Standing.heavierFirst, below.pop? Standing.lighterFirst with
    | some (source, above), some (destination, below) =>
      match nextMove source destination with
      | .error e => .silent (.error e)
      | .ok (plan, rest) =>
        let source := source.give rest
        let destination := destination.take
        let above := if source.isAbove then above.push Standing.heavierFirst source else above
        let below := if destination.isBelow then below.push Standing.lighterFirst destination else below
        andThen plan loud (pairUp loud fuel above below)
    | _, _ => .silent (.ok [])

/-- Moves for nodes on the way to their targets; no more are needed than shards beyond targets. -/
def movesFor (loud : Bool) (standings : List Standing) : Logged (Except PlanError (List MovePlan)) :=
  let above := standings.filter Standing.isAbove
  let below := standings.filter Standing.isBelow
  pairUp loud (above.foldl (fun n s => n + s.surplus) 0) (.ofList Standing.heavierFirst above)
    (.ofList Standing.lighterFirst below)

def standings (s : Snapshot) : List Standing :=
  let targets := Targets.ofLoads
    (s.hosted.entries.map fun e => ⟨e.2.length, e.1⟩) s.summary
  s.hosted.entries.map fun e => ⟨e.1, e.2.length, targets.of e.1, e.2⟩

/-! ## The same rule by full scans -/

def first? (before : Standing → Standing → Bool) : List Standing → Option Standing
  | [] => none
  | s :: ss =>
    match first? before ss with
    | none => some s
    | some t => if before s t then some s else some t

def update (s : Standing) (all : List Standing) : List Standing :=
  all.map fun t => if t.node = s.node then s else t

def scan : Nat → List Standing → Except PlanError (List MovePlan)
  | 0, _ => .ok []
  | fuel + 1, all =>
    match first? Standing.heavierFirst (all.filter Standing.isAbove),
        first? Standing.lighterFirst (all.filter Standing.isBelow) with
    | some source, some destination =>
      match nextMove source destination with
      | .error e => .error e
      | .ok (plan, rest) =>
        (scan fuel (update destination.take (update (source.give rest) all))).map (plan :: ·)
    | _, _ => .ok []

end Planner

/-! ## Planners -/

structure Planner where
  slop : Slop
  logPlans : Bool
  slop_bound : slop.isNegative = false

namespace Planner

def make (slop : Slop) (logPlans : Bool) : Except PlanError Planner :=
  if h : slop.isNegative = false then .ok ⟨slop, logPlans, h⟩ else .error .negativeSlop

/-- The planner of a configuration, whose slop is never negative. -/
def ofConfig (c : Config) : Planner where
  slop := .double c.slop
  logPlans := c.logPlans
  slop_bound := by
    have h := c.slop_bounds
    simp only [Double.inUnitInterval, Bool.and_eq_true, Bool.not_eq_true'] at h
    exact h.1

/-- The moves that balance a snapshot.  There are none without nodes, with one node, without shards, or
when the slop tolerates the loads. -/
def balance (p : Planner) (s : Snapshot) : Logged (Except PlanError (List MovePlan)) :=
  if s.nodeCount = 0 then ⟨.ok [], [.noNodesToBalance]⟩
  else
    let summary := s.summary
    let opening := Event.clusterLoad summary
    if s.nodeCount = 1 ∨ summary.shardCount = 0 then ⟨.ok [], [opening]⟩
    else
      match p.slop.tolerates summary with
      | .error e => ⟨.error (.inexactSlop e), [opening]⟩
      | .ok true => ⟨.ok [], [opening, .alreadyBalanced summary p.slop]⟩
      | .ok false =>
        let moves := movesFor p.logPlans (standings s)
        match moves.result with
        | .error e => ⟨.error e, opening :: moves.events⟩
        | .ok plans => ⟨.ok plans, opening :: moves.events ++ [.planned plans.length summary]⟩

end Planner
end Placement
