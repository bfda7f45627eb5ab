import Placement.LoadSummary

/-!
# Tolerance

A `Slop` is the fraction of the average by which loads may stray before a cluster counts as
unbalanced.  It is a whole number or a double; it enters the decision as the decimal value of its
text, so `Slop.tolerates` works in exact rational arithmetic.
-/

namespace Placement
set_option autoImplicit false

inductive Slop where
  | whole (n : Int)
  | double (d : Double)
deriving DecidableEq

/-- Why a slop has no exact value. -/
inductive InexactSlop where
  /-- The text of a NaN or of an infinity. -/
  | literal (text : String)
  /-- A whole number with too many digits for a text. -/
  | unwritable (cause : RangeError)
deriving DecidableEq

namespace Slop

/-- Whether the slop is less than zero; a NaN is not, and neither is a zero of either sign. -/
def isNegative : Slop → Bool
  | .whole n => decide (n < 0)
  | .double d => d.isNegative

def isZero : Slop → Bool
  | .whole n => decide (n = 0)
  | .double d => d.isZero

def exact : Slop → Except InexactSlop Rat
  | .whole n =>
    match Numeral.written n with
    | .ok _ => .ok n
    | .error e => .error (.unwritable e)
  | .double d =>
    match d.decimalValue? with
    | some q => .ok q
    | none => .error (.literal d.text)

/-- Both extremes lie within the average widened by the slop, rounded outwards. -/
def withinBounds (s : LoadSummary) (slop : Rat) : Bool :=
  let average := mkRat s.shardCount s.nodeCount.toNat
  decide (s.maxLoad ≤ (average * (1 + slop)).ceil) && decide ((average * (1 - slop)).floor ≤ s.minLoad)

/-- A balanced cluster is tolerated by any slop and no other one by a slop that is not positive. -/
def tolerates (slop : Slop) (s : LoadSummary) : Except InexactSlop Bool :=
  if s.isBalanced then .ok true
  else if slop.isNegative || slop.isZero then .ok false
  else slop.exact.map (withinBounds s)

/-- Two places after the point, unless the number is too large for a double. -/
def hundredths : Slop → Except RangeError String
  | .whole n =>
    match Double.ofInt? n with
    | some d => .ok (d.fixed 2)
    | none => .error .integer
  | .double d => .ok (d.fixed 2)

end Slop

def InexactSlop.message : InexactSlop → String
  | .literal text => "Invalid literal for Fraction: '" ++ text ++ "'"
  | .unwritable cause => cause.message

end Placement
