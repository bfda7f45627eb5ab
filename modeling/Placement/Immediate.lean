import Placement.LeastLoaded
import Placement.Log
import Placement.Ordered
import Placement.Table

/-!
# Placing shards that lost their owner

`Immediate.assign` puts every shard on the least loaded node, all nodes starting from zero.
-/

namespace Placement.Immediate
set_option autoImplicit false

/-- A shard that is listed twice is counted twice and stays where it was put last. -/
def assign (shards : List Shard) (nodes : List Node) : Logged (Table Shard Node) :=
  if shards.isEmpty then .silent .empty
  else
    let members := Ordered.distinct nodes
    match LeastLoaded.deal (members.map fun node => ⟨0, node⟩) shards with
    | .error .noNodes => ⟨.empty, [.unassigned .immediate shards.length]⟩
    | .ok placed =>
      let owners := Table.ofList placed
      ⟨owners, [.immediatelyAssigned owners.size members.length]⟩

end Placement.Immediate
