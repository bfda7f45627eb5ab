import Placement.LeastLoaded
import Placement.Log
import Placement.Ordered
import Placement.Table

/-!
# Sending shards back

After a restart `Retain.assign` sends each shard to the newest incarnation at the address of its
previous owner.  Shards whose owner is unknown or gone go to the least loaded nodes, the returned
shards being counted first.
-/

namespace Placement.Retain
set_option autoImplicit false

/-- The node with the greatest start code among those at an address. -/
def newest? (nodes : List Node) (a : Address) : Option Node :=
  nodes.foldl (fun best node =>
    if node.address = a then
      match best with
      | some current => if current.startCode < node.startCode then some node else best
      | none => some node
    else best) none

/-- Where a shard returns to, if its previous owner is known and its address is still there. -/
def home? (nodes : List Node) (previous : Option Node) : Option Node :=
  previous.bind fun node => newest? nodes node.address

def kept (nodes : List Node) (previous : Table Shard (Option Node)) : List (Shard × Node) :=
  previous.entries.filterMap fun e => (home? nodes e.2).map fun node => (e.1, node)

def orphans (nodes : List Node) (previous : Table Shard (Option Node)) : List Shard :=
  (previous.entries.filter fun e => (home? nodes e.2).isNone).map Prod.fst

def tallies (nodes : List Node) (returned : List (Shard × Node)) : List Tally :=
  nodes.map fun node => ⟨(returned.countP fun e => e.2 = node : Nat), node⟩

def assign (previous : Table Shard (Option Node)) (nodes : List Node) :
    Logged (Table Node (List Shard)) :=
  let members := Ordered.distinct nodes
  if previous.isEmpty then .silent .empty
  else if members.isEmpty then ⟨.empty, [.unassigned .retain previous.size]⟩
  else
    let returned := kept members previous
    let homeless := orphans members previous
    match LeastLoaded.deal (tallies members returned) homeless with
    | .error .noNodes => ⟨.empty, [.unassigned .retain previous.size]⟩
    | .ok placed =>
      ⟨.grouped ((returned ++ placed).map fun e => (e.2, e.1)),
        [.retained (previous.size - homeless.length) previous.size homeless.length]⟩

end Placement.Retain
