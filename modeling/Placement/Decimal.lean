import Placement.Double
import Placement.Numeral

/-!
# Decimal texts of doubles

`Decimal` is a run of digits times a power of ten.  `Decimal.shortest` finds the decimal with the
fewest digits that rounds back to a magnitude, the nearest of those; `Double.text` lays it out,
`Double.fixed` writes a fixed number of places, and `Decimal.ofLiteral?` with `Double.ofLiteral?`
read decimal literals.
-/

namespace Placement
set_option autoImplicit false

/-- The number `digits * 10 ^ exponent`. -/
structure Decimal where
  digits : Nat
  exponent : Int
deriving DecidableEq

namespace Decimal

def toRat (d : Decimal) : Rat :=
  if d.exponent < 0 then mkRat d.digits (Nat.pow 10 (-d.exponent).toNat)
  else mkRat (d.digits * Nat.pow 10 d.exponent.toNat) 1

def width (n : Nat) : Nat := (Numeral.digits n).length

/-- The code that a decimal rounds to.  Decimals far outside the format are not expanded. -/
def code (d : Decimal) : Nat :=
  let top := d.exponent + width d.digits
  if d.digits = 0 ∨ top < -330 then 0
  else if 310 < top then codeLimit
  else if d.exponent < 0 then Double.codeOfQuotient d.digits (Nat.pow 10 (-d.exponent).toNat)
  else Double.codeOfQuotient (d.digits * Nat.pow 10 d.exponent.toNat) 1

def trimmed : Nat → Decimal → Decimal
  | 0, d => d
  | fuel + 1, d =>
    if d.digits ≠ 0 ∧ d.digits % 10 = 0 then trimmed fuel ⟨d.digits / 10, d.exponent + 1⟩ else d

/-! ## Fewest digits that read back -/

/-- The exponent of ten of the first digit of a positive quotient. -/
def leadingExponent (num den : Nat) : Int :=
  if den ≤ num then (width (num / den) : Int) - 1 else -(width ((den - 1) / num) : Int)

/-- A positive quotient in units of `10 ^ e`, as a quotient. -/
def inPowers (num den : Nat) (e : Int) : Nat × Nat :=
  if e < 0 then (num * Nat.pow 10 (-e).toNat, den) else (num, den * Nat.pow 10 e.toNat)

/-- The neighbours of a quotient among the multiples of `10 ^ e`: of those that round to `target` the
nearer one, and at equal distance the even one. -/
def neighbour? (target num den : Nat) (e : Int) : Option Decimal :=
  let (n, d) := inPowers num den e
  let low : Decimal := ⟨n / d, e⟩
  let high : Decimal := ⟨n / d + 1, e⟩
  if low.code = target then
    if high.code = target then some ⟨Double.divNearest n d, e⟩ else some low
  else if high.code = target then some high else none

/-- Tries ever finer multiples of powers of ten, beginning at `10 ^ e`; after `fuel` of them the
exact decimal expansion of the quotient of the code stands in. -/
def search (target num den : Nat) : Nat → Int → Decimal
  | 0, _ =>
    let (m, e) := Double.parts target
    if e < 0 then ⟨m * Nat.pow 5 (-e).toNat, e⟩ else ⟨m * Nat.pow 2 e.toNat, 0⟩
  | fuel + 1, e =>
    match neighbour? target num den e with
    | some d => d
    | none => search target num den fuel (e - 1)

/-- The decimal with the fewest digits that rounds to a code, the nearest of those. -/
def shortest (target : Nat) : Decimal :=
  if target = 0 then ⟨0, 0⟩
  else
    let (n, d) := Double.quotient target
    trimmed 20 (search target n d 17 (leadingExponent n d))

/-! ## Layout -/

/-- Positional digits with at least one on each side of the point. -/
def positional (ds : List Char) (exponent : Int) : List Char :=
  if 0 ≤ exponent then ds ++ List.replicate exponent.toNat '0' ++ ['.', '0']
  else
    let places := (-exponent).toNat
    let whole := ds.take (ds.length - places)
    let fraction := List.replicate (places - ds.length) '0' ++ ds.drop (ds.length - places)
    (if whole.isEmpty then ['0'] else whole) ++ ['.'] ++ fraction

/-- One digit, the others after a point, and a signed exponent of at least two digits. -/
def scientific (ds : List Char) (top : Int) : List Char :=
  let mantissa := match ds with
    | d :: e :: rest => d :: '.' :: e :: rest
    | short => short
  mantissa ++ ['e', if top < 0 then '-' else '+'] ++ Numeral.padded 2 top.natAbs

/-- Exponents of the first digit from -4 to 15 are written positionally. -/
def text (d : Decimal) : List Char :=
  let ds := Numeral.digits d.digits
  let top := d.exponent + ds.length - 1
  if -4 ≤ top ∧ top < 16 then positional ds d.exponent else scientific ds top

end Decimal

namespace Double

def signed (negative : Bool) (cs : List Char) : String :=
  String.ofList (if negative then '-' :: cs else cs)

def text : Double → String
  | .nan => "nan"
  | .infinite negative => signed negative ['i', 'n', 'f']
  | .finite negative code => signed negative (Decimal.shortest code.val).text

/-- The text with `places` digits after the point, the exact value rounded half to even. -/
def fixed (places : Nat) : Double → String
  | .nan => "nan"
  | .infinite negative => signed negative ['i', 'n', 'f']
  | .finite negative code =>
    let (n, d) := quotient code.val
    let ds := Numeral.padded (places + 1) (divNearest (n * Nat.pow 10 places) d)
    let point := ds.length - places
    signed negative (ds.take point ++ ['.'] ++ ds.drop point)

/-- The rational value of the text of a finite double, signs included. -/
def decimalValue? : Double → Option Rat
  | .finite negative code =>
    let q := (Decimal.shortest code.val).toRat
    some (if negative then -q else q)
  | _ => none

end Double

/-! ## Reading -/

namespace Decimal

/-- A sign in front of a text, true for minus. -/
def takeSign : List Char → Bool × List Char
  | '-' :: cs => (true, cs)
  | '+' :: cs => (false, cs)
  | cs => (false, cs)

/-- Reads the digits that follow the mark of an exponent, to the end of the text. -/
def exponent? (cs : List Char) : Option Int :=
  match takeSign cs with
  | (negative, ds) =>
    (Numeral.value? 10 ds).map fun n => if negative then -(n : Int) else n

/-- An unsigned decimal literal: digits, a point with digits on at least one side, or digits alone,
then perhaps an exponent. -/
def ofLiteral? (cs : List Char) : Option Decimal :=
  let whole := cs.takeWhile Numeral.isDecimal
  let rest := cs.dropWhile Numeral.isDecimal
  let (fraction, rest) := match rest with
    | '.' :: more => (more.takeWhile Numeral.isDecimal, more.dropWhile Numeral.isDecimal)
    | other => ([], other)
  match Numeral.value? 10 (whole ++ fraction) with
  | none => none
  | some n =>
    match rest with
    | [] => some ⟨n, -(fraction.length : Int)⟩
    | mark :: more =>
      if mark = 'e' ∨ mark = 'E' then
        (exponent? more).map fun e => ⟨n, e - fraction.length⟩
      else none

end Decimal

namespace Double

/-- A decimal literal, or a name of infinity or of NaN in any case, with an optional sign. -/
def ofLiteral? (cs : List Char) : Option Double :=
  let (negative, body) := Decimal.takeSign cs
  let word := String.ofList (body.map Char.toLower)
  if word = "nan" then some .nan
  else if word = "inf" ∨ word = "infinity" then some (.infinite negative)
  else (Decimal.ofLiteral? body).map fun d => ofCode negative d.code

end Double
end Placement
