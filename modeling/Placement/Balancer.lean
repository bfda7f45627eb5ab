import Placement.Bulk
import Placement.Immediate
import Placement.Planner
import Placement.RandomPick
import Placement.Retain

/-!
# The balancer

A `Balancer` answers all placement questions of one configuration.  Its only changing part is the
generator of its random picks, which every pick hands on.
-/

namespace Placement
set_option autoImplicit false

/-- Replays moves on a snapshot and reports how many there were, unless one of them did not fit. -/
def Snapshot.apply (s : Snapshot) (plans : List MovePlan) : Logged (Except SnapshotError Snapshot) :=
  match s.replay plans with
  | .ok after => ⟨.ok after, [.replayed plans.length]⟩
  | .error e => .silent (.error e)

structure Balancer where
  config : Config
  generator : Twister

namespace Balancer

/-- A new balancer; without a seed in the configuration its picks start from `entropy`. -/
def start (config : Config) (entropy : Int) : Logged Balancer :=
  ⟨⟨config, .ofSeed (config.randomSeed.getD entropy)⟩, [.balancerReady config]⟩

def planner (b : Balancer) : Planner := .ofConfig b.config

def balance (b : Balancer) (s : Snapshot) : Logged (Except PlanError (List MovePlan)) :=
  b.planner.balance s

/-- A pick with the balancer's own generator, and the balancer with the generator moved on. -/
def pick (b : Balancer) (nodes : List Node) : Logged (Option Node) × Balancer :=
  let (picked, generator) := RandomPick.pick nodes b.generator
  (picked, ⟨b.config, generator⟩)

end Balancer
end Placement
