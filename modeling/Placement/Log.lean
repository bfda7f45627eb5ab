import Placement.Config
import Placement.MovePlan
import Placement.Slop

/-!
# Log records

An `Event` is something that a component reports, with the figures it reports; its level, its
component and its text are functions of it.  A `Record` is an event in writing.
`Logged α` is a result together with the events that came up on the way to it.
-/

namespace Placement
set_option autoImplicit false

inductive Level where
  | debug | info | warning
deriving DecidableEq

inductive Component where
  | snapshot | planner | bulk | immediate | retain | balancer
deriving DecidableEq

inductive Event where
  | noNodesToBalance
  | clusterLoad (summary : LoadSummary)
  | alreadyBalanced (summary : LoadSummary) (slop : Slop)
  | move (plan : MovePlan) (loud : Bool)
  | planned (count : Nat) (summary : LoadSummary)
  | replayed (count : Nat)
  | unassigned (assigner : Component) (count : Nat)
  | bulkAssigned (shards nodes : Nat)
  | immediatelyAssigned (shards nodes : Nat)
  | nothingToPick
  | retained (kept total moved : Nat)
  | balancerReady (config : Config)
deriving DecidableEq

def Level.name : Level → String
  | .debug => "DEBUG"
  | .info => "INFO"
  | .warning => "WARNING"

def Component.name : Component → String
  | .snapshot => "cluster_snapshot"
  | .planner => "balance_planner"
  | .bulk => "bulk_assigner"
  | .immediate => "immediate_assigner"
  | .retain => "retain_assigner"
  | .balancer => "load_balancer"

namespace Event

def level : Event → Level
  | .noNodesToBalance | .clusterLoad _ | .replayed _ | .balancerReady _ => .debug
  | .move _ loud => if loud then .info else .debug
  | .unassigned _ _ | .nothingToPick => .warning
  | _ => .info

def component : Event → Component
  | .noNodesToBalance | .clusterLoad _ | .alreadyBalanced _ _ | .move _ _ | .planned _ _ => .planner
  | .replayed _ => .snapshot
  | .unassigned assigner _ => assigner
  | .bulkAssigned _ _ => .bulk
  | .immediatelyAssigned _ _ | .nothingToPick => .immediate
  | .retained _ _ _ => .retain
  | .balancerReady _ => .balancer

/-- The text of an event; `elapsed` is the planning time in milliseconds.  A figure or an id that is too
large to be written leaves the event without a text. -/
def text (elapsed : String) : Event → Except RangeError String
  | .noNodesToBalance => .ok "No nodes in snapshot, nothing to balance"
  | .clusterLoad summary => summary.text.map ("Cluster load " ++ ·)
  | .alreadyBalanced summary slop =>
    match summary.text, slop.hundredths with
    | .ok figures, .ok places =>
      .ok ("Skipping load balancing; cluster is balanced " ++ figures ++ " (slop=" ++ places ++ ")")
    | .error e, _ | _, .error e => .error e
  | .move plan _ => plan.text.map ("Move plan " ++ ·)
  | .planned count summary =>
    summary.text.map fun figures =>
      "Calculated " ++ Numeral.ofNat count ++ " move plans for " ++ figures ++ " in " ++ elapsed ++ "ms"
  | .replayed count => .ok ("Replayed " ++ Numeral.ofNat count ++ " move plans against snapshot")
  | .unassigned _ count =>
    .ok ("No nodes available; " ++ Numeral.ofNat count ++ " shards left unassigned")
  | .bulkAssigned shards nodes =>
    .ok ("Bulk assigned " ++ Numeral.ofNat shards ++ " shards across " ++ Numeral.ofNat nodes ++ " nodes")
  | .immediatelyAssigned shards nodes =>
    .ok ("Immediately assigned " ++ Numeral.ofNat shards ++ " shards across " ++
      Numeral.ofNat nodes ++ " nodes")
  | .nothingToPick => .ok "No nodes available for random assignment"
  | .retained kept total moved =>
    .ok ("Retained " ++ Numeral.ofNat kept ++ " of " ++ Numeral.ofNat total ++
      " shards on their previous nodes; " ++ Numeral.ofNat moved ++ " reassigned")
  | .balancerReady config => config.text.map ("LoadBalancer initialized with " ++ ·)

end Event

/-! ## Records -/

structure Record where
  level : Level
  component : Component
  text : String
deriving DecidableEq

/-- The records of some events, up to the first event that cannot be written, and what is wrong with that one. -/
def Record.ofEvents (elapsed : String) : List Event → List Record × Except RangeError Unit
  | [] => ([], .ok ())
  | e :: es =>
    match e.text elapsed with
    | .ok text =>
      let rest := Record.ofEvents elapsed es
      (⟨e.level, e.component, text⟩ :: rest.1, rest.2)
    | .error cause => ([], .error cause)

/-! ## Results with events -/

structure Logged (α : Type) where
  result : α
  events : List Event

namespace Logged
variable {α β : Type}

def silent (a : α) : Logged α := ⟨a, []⟩

def map (f : α → β) (x : Logged α) : Logged β := ⟨f x.result, x.events⟩

end Logged
end Placement
