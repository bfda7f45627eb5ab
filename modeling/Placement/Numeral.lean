/-!
# Numerals

Digits of natural numbers in a base of at most sixteen, most significant first, and the value that a
run of digits stands for.  `ofNat` and `ofInt` are the decimal texts, `hexByte` the two lower-case
digits of a byte.  An integer with too many digits is not put into writing (`Numeral.written`).
-/

namespace Placement
set_option autoImplicit false

/-- A quotient of integers, or an integer, that rounds past the largest finite double, or an integer
with more digits than are written. -/
inductive RangeError where
  | quotient
  | integer
  | digits
deriving DecidableEq

namespace Numeral

/-! ## Single digits -/

def digitChar (d : Nat) : Char :=
  if d < 10 then Char.ofNat (48 + d) else Char.ofNat (87 + d)

def digitValue? (c : Char) : Option Nat :=
  if '0' ≤ c ∧ c ≤ '9' then some (c.toNat - 48)
  else if 'a' ≤ c ∧ c ≤ 'f' then some (c.toNat - 87)
  else if 'A' ≤ c ∧ c ≤ 'F' then some (c.toNat - 55)
  else none

def digitIn? (base : Nat) (c : Char) : Option Nat :=
  match digitValue? c with
  | some d => if d < base then some d else none
  | none => none

def isDecimal (c : Char) : Bool := decide ('0' ≤ c ∧ c ≤ '9')

/-! ## Runs of digits -/

/-- Decimal digits, most significant first, put in front of `tail`; zero has one digit. -/
def digitsOnto (n : Nat) (tail : List Char) : List Char :=
  if n < 10 then digitChar n :: tail
  else digitsOnto (n / 10) (digitChar (n % 10) :: tail)
termination_by n

def digits (n : Nat) : List Char := digitsOnto n []

/-- The value of a run of digits in a base, each step shifting what was read by one place. -/
def valueFrom? (base : Nat) : Nat → List Char → Option Nat
  | acc, [] => some acc
  | acc, c :: cs =>
    match digitIn? base c with
    | some d => valueFrom? base (acc * base + d) cs
    | none => none

/-- The value of a non-empty run of digits; none when there is no digit or a foreign character. -/
def value? (base : Nat) (cs : List Char) : Option Nat :=
  if cs.isEmpty then none else valueFrom? base 0 cs

/-- Decimal integers of more digits than this are neither read nor written. -/
def digitLimit : Nat := 4300

/-! ## Texts -/

def ofNat (n : Nat) : String := String.ofList (digits n)

/-- A minus sign stands in front of the digits of a negative integer and of no other. -/
def ofInt : Int → String
  | .ofNat n => ofNat n
  | .negSucc n => "-" ++ ofNat (n + 1)

def Writable (i : Int) : Prop := (digits i.natAbs).length ≤ digitLimit

instance (i : Int) : Decidable (Writable i) := inferInstanceAs (Decidable (_ ≤ _))

def written (i : Int) : Except RangeError String :=
  if Writable i then .ok (ofInt i) else .error .digits

def padded (width n : Nat) : List Char :=
  let ds := digits n
  List.replicate (width - ds.length) '0' ++ ds

def hexByte (b : UInt8) : List Char := [digitChar (b.toNat / 16), digitChar (b.toNat % 16)]

def ofBytes (bytes : List UInt8) : String := String.ofList (bytes.flatMap hexByte)

end Numeral

def RangeError.message : RangeError → String
  | .quotient => "integer division result too large for a float"
  | .integer => "int too large to convert to float"
  | .digits =>
    "Exceeds the limit (" ++ Numeral.ofNat Numeral.digitLimit ++
      " digits) for integer string conversion; use sys.set_int_max_str_digits() to increase the limit"

end Placement
