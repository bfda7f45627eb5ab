import Placement.Decimal

/-!
# Tunables

A `Config` holds the slop of the planner, the seed of random picks and the level at which moves are
announced.  Its slop is a number from zero to one.
-/

namespace Placement
set_option autoImplicit false

/-- Numbers from zero to one; the negative zero is among them and NaN is not. -/
def Double.inUnitInterval (d : Double) : Bool := !d.isNegative && d.atMostOne

structure Config where
  slop : Double
  randomSeed : Option Int
  logPlans : Bool
  slop_bounds : slop.inUnitInterval = true
deriving DecidableEq

namespace Config

/-- Strict planning, unseeded picks, quiet moves. -/
def standard : Config := ⟨.zero, none, false, by decide⟩

def text (c : Config) : Except RangeError String :=
  (match c.randomSeed with | some seed => Numeral.written seed | none => .ok "None").map fun seed =>
    "slop=" ++ c.slop.text ++ " random_seed=" ++ seed ++
      " log_plans=" ++ (if c.logPlans then "True" else "False")

end Config
end Placement
