import Placement.LoadSummary
import Placement.MovePlan
import Placement.Ordered
import Placement.Table

/-!
# Snapshots

A `Snapshot` says at one point in time which shards each node hosts.  `Snapshot.owners` turns it into
a map from shards to nodes and `Snapshot.ofOwners` turns such a map back.  `Snapshot.replay` carries
out moves one by one and stops at the first that does not fit.  A refusal comes with its wording, which
names the nodes and the shard; where one of them cannot be written, that is the error instead
(`SnapshotError.raised`).
-/

namespace Placement
set_option autoImplicit false

structure Snapshot where
  hosted : Table Node (List Shard)

inductive SnapshotError where
  /-- A node that the snapshot does not list. -/
  | unknownNode (node : Node)
  /-- A move whose source does not own the shard; the owner is none when no node hosts it. -/
  | stalePlan (plan : MovePlan) (owner : Option Node)
  /-- A move whose shard is not in the list of the node that owns it. -/
  | lostShard (plan : MovePlan)
  /-- An error that could not be put into words. -/
  | unworded (cause : RangeError)
deriving DecidableEq

namespace SnapshotError

def message : SnapshotError → Except RangeError String
  | .unknownNode node => node.text.map ("Node not found in snapshot: " ++ ·)
  | .stalePlan plan owner => do
    let shard ← plan.shard.text
    let source ← plan.source.text
    let refusal := "Shard " ++ shard ++ " is not hosted by " ++ source ++ "."
    match owner with
    | some node => node.text.map (refusal ++ " Current owner: " ++ ·)
    | none => pure refusal
  | .lostShard _ => .ok "list.remove(x): x not in list"
  | .unworded cause => .ok cause.message

/-- What comes of an error that is put into words on the spot. -/
def raised (e : SnapshotError) : SnapshotError :=
  match e.message with
  | .ok _ => e
  | .error cause => .unworded cause

end SnapshotError

namespace Snapshot

/-! ## Building -/

/-- Pairs of a node and its shards; the last list of a node counts. -/
def ofList (assignments : List (Node × List Shard)) : Snapshot := ⟨.ofList assignments⟩

/-- The nodes come first, each without shards, then every shard joins its owner. -/
def ofOwners (owners : Table Shard Node) (nodes : List Node) : Snapshot :=
  ⟨(Table.ofList (nodes.map fun node => (node, []))).pushAll
    (owners.entries.map fun e => (e.2, e.1))⟩

/-! ## Questions -/

def nodes (s : Snapshot) : List Node := Ordered.distinct s.hosted.keys

def nodeCount (s : Snapshot) : Nat := s.hosted.size

def totalLoad (s : Snapshot) : Nat := s.hosted.values.flatten.length

def isEmpty (s : Snapshot) : Bool := s.totalLoad == 0

def contains (s : Snapshot) (node : Node) : Bool := s.hosted.contains node

/-- The shards of a node, in the order in which they were given. -/
def shardsOn (s : Snapshot) (node : Node) : Except SnapshotError (List Shard) :=
  match s.hosted.get? node with
  | some shards => .ok shards
  | none => .error (SnapshotError.unknownNode node).raised

def load (s : Snapshot) (node : Node) : Except SnapshotError Nat := (s.shardsOn node).map List.length

def loads (s : Snapshot) : Table Node Nat := s.hosted.mapValues fun _ shards => shards.length

def summary (s : Snapshot) : LoadSummary :=
  LoadSummary.ofLoads (s.loads.values.map fun (load : Nat) => (load : Int))

/-- Every shard with its node, node by node in identity order; the greatest node that hosts a shard
owns it. -/
def owners (s : Snapshot) : Table Shard Node :=
  Table.ofList (s.nodes.flatMap fun node =>
    ((s.hosted.get? node).getD []).map fun shard => (shard, node))

def ownerOf (s : Snapshot) (shard : Shard) : Option Node := s.owners.get? shard

/-- No shard occurs twice in the lists of all nodes. -/
def WellFormed (s : Snapshot) : Prop := s.hosted.values.flatten.Nodup

instance (s : Snapshot) : Decidable s.WellFormed := inferInstanceAs (Decidable (List.Nodup _))

/-- Both list the same nodes, and each node hosts the same set of shards in both. -/
def same (s t : Snapshot) : Bool :=
  let covered (a b : Snapshot) := a.hosted.entries.all fun e =>
    match b.hosted.get? e.1 with
    | some shards => e.2.all shards.contains && shards.all e.2.contains
    | none => false
  covered s t && covered t s

def text (s : Snapshot) : String :=
  let loads := s.nodes.map fun node => Numeral.ofNat ((s.hosted.get? node).getD []).length
  "ClusterSnapshot(\x7b " ++ String.intercalate ", " loads ++ " \x7d)"

/-! ## Replay -/

/-- What a replay works on: the lists of the nodes and the owner of every shard. -/
structure Replay where
  hosted : Table Node (List Shard)
  owners : Table Shard Node

/-- The destination has to be listed and the source has to own the shard.  The shard leaves its place
in the source's list and joins the end of the destination's. -/
def Replay.step (r : Replay) (plan : MovePlan) : Except SnapshotError Replay :=
  if ¬ r.hosted.contains plan.destination then .error (SnapshotError.unknownNode plan.destination).raised
  else if r.owners.get? plan.shard ≠ some plan.source then
    .error (SnapshotError.stalePlan plan (r.owners.get? plan.shard)).raised
  else if plan.shard ∉ (r.hosted.get? plan.source).getD [] then .error (.lostShard plan)
  else .ok {
    hosted := (r.hosted.modify plan.source (·.erase plan.shard)).modify plan.destination
      (· ++ [plan.shard])
    owners := r.owners.insert plan.shard plan.destination }

def Replay.run : Replay → List MovePlan → Except SnapshotError Replay
  | r, [] => .ok r
  | r, plan :: plans =>
    match r.step plan with
    | .ok next => next.run plans
    | .error e => .error e

def replay (s : Snapshot) (plans : List MovePlan) : Except SnapshotError Snapshot :=
  (Replay.run ⟨s.hosted, s.owners⟩ plans).map fun r => ⟨r.hosted⟩

end Snapshot
end Placement
