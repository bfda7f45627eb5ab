import Placement.Decimal

/-!
# Load figures

`LoadSummary.ofLoads` condenses a list of loads into counts and extremes; the averages, the spread
and the balance test are derived from these four numbers.
-/

namespace Placement
set_option autoImplicit false

structure LoadSummary where
  nodeCount : Int
  shardCount : Int
  maxLoad : Int
  minLoad : Int
deriving DecidableEq

namespace LoadSummary

/-- No loads give zero in all four places. -/
def ofLoads : List Int → LoadSummary
  | [] => ⟨0, 0, 0, 0⟩
  | load :: loads =>
    ⟨loads.length + 1, loads.foldl (· + ·) load, loads.foldl max load, loads.foldl min load⟩

/-- The quotient of two integers to the nearest double; a quotient of unlike signs keeps the minus
sign when it rounds to zero, and so does zero by a negative number. -/
def average (s : LoadSummary) : Except RangeError Double :=
  if s.nodeCount = 0 then .ok .zero
  else
    let negative := (s.shardCount < 0) != (s.nodeCount < 0)
    match Double.ofQuotient negative s.shardCount.natAbs s.nodeCount.natAbs with
    | .infinite _ => .error .quotient
    | d => .ok d

def floorAverage (s : LoadSummary) : Int :=
  if s.nodeCount = 0 then 0 else s.shardCount.fdiv s.nodeCount

def ceilAverage (s : LoadSummary) : Int :=
  if s.nodeCount = 0 then 0 else -((-s.shardCount).fdiv s.nodeCount)

def spread (s : LoadSummary) : Int := s.maxLoad - s.minLoad

/-- Every load lies between the floor and the ceiling of the average. -/
def isBalanced (s : LoadSummary) : Bool :=
  decide (s.floorAverage ≤ s.minLoad) && decide (s.maxLoad ≤ s.ceilAverage)

/-- The figures in writing; the first that cannot be written is what is wrong with all of them. -/
def text (s : LoadSummary) : Except RangeError String := do
  let nodes ← Numeral.written s.nodeCount
  let shards ← Numeral.written s.shardCount
  let average ← s.average
  let ceiling ← Numeral.written s.ceilAverage
  let floor ← Numeral.written s.floorAverage
  let most ← Numeral.written s.maxLoad
  let least ← Numeral.written s.minLoad
  pure ("[nodes=" ++ nodes ++ " shards=" ++ shards ++ " avg=" ++ average.fixed 3 ++ " ceil=" ++ ceiling ++
    " floor=" ++ floor ++ " max_load=" ++ most ++ " min_load=" ++ least ++ "]")

end LoadSummary
end Placement
