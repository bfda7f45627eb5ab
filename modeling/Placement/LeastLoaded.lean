import Placement.Node
import Placement.Queue
import Placement.Shard
import Placement.Table

/-!
# Least loaded placement

A `Tally` is a running count of a node.  `LeastLoaded.deal` hands shard after shard to the node with
the lowest count, ties to the smaller node, and counts it; `LeastLoaded.scan` is the same rule by a
full scan of the tallies.  `LeastLoaded.place` writes the nodes down over assignments from before.
-/

namespace Placement
set_option autoImplicit false

structure Tally where
  count : Int
  node : Node
deriving DecidableEq

/-- Lower counts first, then smaller nodes. -/
def Tally.before (a b : Tally) : Bool :=
  decide (a.count < b.count) || (decide (a.count = b.count) && decide (a.node ≤ b.node))

inductive PlacementError where
  | noNodes
deriving DecidableEq

def PlacementError.message : PlacementError → String
  | .noNodes => "index out of range"

namespace LeastLoaded

def dealFrom : Queue Tally → List Shard → Except PlacementError (List (Shard × Node))
  | _, [] => .ok []
  | queue, shard :: shards =>
    match queue.pop? Tally.before with
    | none => .error .noNodes
    | some (tally, rest) =>
      (dealFrom (rest.push Tally.before ⟨tally.count + 1, tally.node⟩) shards).map
        ((shard, tally.node) :: ·)

/-- Every shard with the node that it goes to, in the order of the shards. -/
def deal (tallies : List Tally) (shards : List Shard) : Except PlacementError (List (Shard × Node)) :=
  dealFrom (.ofList Tally.before tallies) shards

/-! ## Over assignments from before -/

/-- What has been assigned stays assigned when there is no node for the next shard. -/
def placeFrom : Queue Tally → List Shard → Table Shard (Option Node) →
    Table Shard (Option Node) × Except PlacementError Unit
  | _, [], assignments => (assignments, .ok ())
  | queue, shard :: shards, assignments =>
    match queue.pop? Tally.before with
    | none => (assignments, .error .noNodes)
    | some (tally, rest) =>
      placeFrom (rest.push Tally.before ⟨tally.count + 1, tally.node⟩) shards
        (assignments.insert shard (some tally.node))

/-- Places shards on the nodes that have a count, the counts being those to start from. -/
def place (counts : Table Node Int) (shards : List Shard) (assignments : Table Shard (Option Node)) :
    Table Shard (Option Node) × Except PlacementError Unit :=
  placeFrom (.ofList Tally.before (counts.entries.map fun e => ⟨e.2, e.1⟩)) shards assignments

/-! ## By full scans -/

def least? : List Tally → Option Tally
  | [] => none
  | t :: ts =>
    match least? ts with
    | none => some t
    | some u => if t.before u then some t else some u

def count (node : Node) (tallies : List Tally) : List Tally :=
  tallies.map fun t => if t.node = node then ⟨t.count + 1, t.node⟩ else t

def scan : List Tally → List Shard → Except PlacementError (List (Shard × Node))
  | _, [] => .ok []
  | tallies, shard :: shards =>
    match least? tallies with
    | none => .error .noNodes
    | some tally => (scan (count tally.node tallies) shards).map ((shard, tally.node) :: ·)

end LeastLoaded
end Placement
