/-!
# Double precision numbers

A finite double is a sign and a *code*: the position of its magnitude in the increasing list of all
finite magnitudes.  `Double.parts` turns a code into a significand and a binary exponent,
`codeOfQuotient` rounds a positive quotient to the code nearest to it, a half to the even code, and
`Double.toRat?` is the rational number that a double stands for.
-/

namespace Placement
set_option autoImplicit false

/-- The number of finite magnitudes: 2047 exponents with 52 bits of fraction each. -/
abbrev codeLimit : Nat := 2047 * Nat.pow 2 52

/-- The values of the double format; all NaNs are one value, and zero has both signs. -/
inductive Double where
  | nan
  | infinite (negative : Bool)
  | finite (negative : Bool) (code : Fin codeLimit)
deriving DecidableEq

namespace Double

/-! ## From codes to numbers -/

/-- The significand and the exponent of two of a magnitude; codes below `2 ^ 52` are subnormal. -/
def parts (code : Nat) : Nat × Int :=
  if code < Nat.pow 2 52 then (code, -1074)
  else (code % Nat.pow 2 52 + Nat.pow 2 52, (code / Nat.pow 2 52 : Nat) - 1075)

def quotient (code : Nat) : Nat × Nat :=
  let (m, e) := parts code
  if e < 0 then (m, Nat.pow 2 (-e).toNat) else (m * Nat.pow 2 e.toNat, 1)

/-- The rational number that a finite double stands for. -/
def toRat? : Double → Option Rat
  | .finite negative code =>
    let (n, d) := quotient code.val
    let q : Rat := mkRat n d
    some (if negative then -q else q)
  | _ => none

/-! ## Rounding -/

/-- Division to the nearest integer; a half goes to the even neighbour. -/
def divNearest (num den : Nat) : Nat :=
  let q := num / den
  let r := num % den
  if 2 * r < den then q else if den < 2 * r then q + 1 else if q % 2 = 0 then q else q + 1

/-- The quotient `num / den` in units of `2 ^ e`, to the nearest integer. -/
def inUnits (num den : Nat) (e : Int) : Nat :=
  if e < 0 then divNearest (num * Nat.pow 2 (-e).toNat) den
  else divNearest num (den * Nat.pow 2 e.toNat)

def atLeastPower (num den : Nat) (e : Int) : Bool :=
  if e < 0 then decide (den ≤ num * Nat.pow 2 (-e).toNat)
  else decide (den * Nat.pow 2 e.toNat ≤ num)

/-- The exponent of the unit in the last place of a magnitude near `num / den`. -/
def unitExponent (num den : Nat) : Int :=
  let guess : Int := (num.log2 : Int) - den.log2
  let top := if atLeastPower num den guess then guess else guess - 1
  max (top - 52) (-1074)

/-- The code nearest to a positive quotient, a half to the even code; it may pass `codeLimit`. -/
def codeOfQuotient (num den : Nat) : Nat :=
  if num = 0 then 0
  else
    let e := unitExponent num den
    (e + 1074).toNat * Nat.pow 2 52 + inUnits num den e

/-- The double of a sign and a code; codes past the largest finite one are infinite. -/
def ofCode (negative : Bool) (code : Nat) : Double :=
  if h : code < codeLimit then .finite negative ⟨code, h⟩ else .infinite negative

def ofQuotient (negative : Bool) (num den : Nat) : Double :=
  ofCode negative (codeOfQuotient num den)

def ofInt (i : Int) : Double := ofQuotient (i < 0) i.natAbs 1

/-- An integer as a double, unless it rounds past the largest finite one. -/
def ofInt? (i : Int) : Option Double :=
  match ofInt i with
  | .infinite _ => none
  | d => some d

def zero : Double := .finite false 0

/-! ## Sign, order and arithmetic -/

/-- Whether a double is less than zero; neither zero is. -/
def isNegative : Double → Bool
  | .nan => false
  | .infinite negative => negative
  | .finite negative code => negative && code.val != 0

def isZero : Double → Bool
  | .finite _ code => code.val == 0
  | _ => false

def oneCode : Nat := 1023 * Nat.pow 2 52

/-- Whether a double is at most one; NaN is not. -/
def atMostOne : Double → Bool
  | .nan => false
  | .infinite negative => negative
  | .finite negative code => negative || decide (code.val ≤ oneCode)

def neg : Double → Double
  | .nan => .nan
  | .infinite negative => .infinite (!negative)
  | .finite negative code => .finite (!negative) code

/-- The correctly rounded sum; a sum of zero is positive unless both terms are negative. -/
def add (a b : Double) : Double :=
  match a, b with
  | .nan, _ | _, .nan => .nan
  | .infinite n, .infinite m => if n = m then .infinite n else .nan
  | .infinite n, _ | _, .infinite n => .infinite n
  | .finite n x, .finite m y =>
    let (nx, dx) := quotient x.val
    let (ny, dy) := quotient y.val
    let sum : Int := (if n then -1 else 1) * (nx * dy : Nat) + (if m then -1 else 1) * (ny * dx : Nat)
    if sum = 0 then .finite (n && m) 0 else ofQuotient (sum < 0) sum.natAbs (dx * dy)

/-- The correctly rounded product of a double and another one; zero times infinity is NaN. -/
def mul (a b : Double) : Double :=
  match a, b with
  | .nan, _ | _, .nan => .nan
  | .infinite n, .infinite m => .infinite (n != m)
  | .infinite n, .finite m x | .finite m x, .infinite n =>
    if x.val = 0 then .nan else .infinite (n != m)
  | .finite n x, .finite m y =>
    let (nx, dx) := quotient x.val
    let (ny, dy) := quotient y.val
    ofQuotient (n != m) (nx * ny) (dx * dy)

/-- The integer that a finite double equals, if it is whole. -/
def toInt? : Double → Option Int
  | .finite negative code =>
    let (n, d) := quotient code.val
    if n % d = 0 then some (if negative then -((n / d : Nat) : Int) else ((n / d : Nat) : Int)) else none
  | _ => none

end Double
end Placement
