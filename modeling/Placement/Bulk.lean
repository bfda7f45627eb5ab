import Placement.Log
import Placement.Ordered
import Placement.Table

/-!
# Dealing shards out

`Bulk.assign` deals shards without history round and round over the nodes in identity order.
-/

namespace Placement.Bulk
set_option autoImplicit false

/-- Shard `i` goes to node `i` modulo the number of nodes. -/
def deal (first : Node) (others : List Node) (shards : List Shard) : List (Node × Shard) :=
  let nodes := first :: others
  shards.zipIdx.map fun e =>
    (nodes.get ⟨e.2 % nodes.length, Nat.mod_lt _ (Nat.succ_pos others.length)⟩, e.1)

/-- Nodes that receive nothing are left out; without shards or without nodes the result is empty. -/
def assign (shards : List Shard) (nodes : List Node) : Logged (Table Node (List Shard)) :=
  if shards.isEmpty then .silent .empty
  else
    match Ordered.distinct nodes with
    | [] => ⟨.empty, [.unassigned .bulk shards.length]⟩
    | first :: others =>
      ⟨.grouped (deal first others shards), [.bulkAssigned shards.length (others.length + 1)]⟩

end Placement.Bulk
