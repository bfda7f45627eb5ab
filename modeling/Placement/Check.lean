import Placement.Fault
import Placement.NumberText
import Placement.Value

/-!
# Checking scalars

A check turns a `Value` into an integer, a number, a truth value, a text or bytes, or names the `Fault`
that keeps it from being one.  Numbers and truth values may also be written as texts.
-/

namespace Placement
set_option autoImplicit false

namespace Check

/-! ## Texts and bytes -/

def text : Value → Except Fault String
  | .text s => .ok s
  | .bytes bs =>
    match Text.ofBytes? bs with
    | some s => .ok s
    | none => .error .textNotUtf8
  | _ => .error .notText

def bytes : Value → Except Fault (List UInt8)
  | .bytes bs => .ok bs
  | .text s => .ok (Text.toBytes s)
  | _ => .error .notBytes

/-! ## Integers -/

/-- The first integer, `2 ^ 63`, that a signed word of 64 bits does not hold. -/
def wordLimit : Int := 9223372036854775808

/-- A whole number strictly between `-wordLimit` and `wordLimit`. -/
def integerDouble (d : Double) : Except Fault Int :=
  match d with
  | .nan | .infinite _ => .error .notFinite
  | .finite _ _ =>
    match d.toInt? with
    | none => .error .fraction
    | some i => if -wordLimit < i ∧ i < wordLimit then .ok i else .error .integerSize

def integer : Value → Except Fault Int
  | .int i => .ok i
  | .bool b => .ok (if b then 1 else 0)
  | .double d => integerDouble d
  | .text s => NumberText.integer s.toList
  | .bytes bs =>
    match Text.ofBytes? bs with
    | some s => NumberText.integer s.toList
    | none => .error .integerSyntax
  | _ => .error .notInteger

def natUpTo (bound : Nat) (v : Value) : Except Fault (Fin (bound + 1)) :=
  match integer v with
  | .error e => .error e
  | .ok i =>
    if i < 0 then .error .belowZero
    else if h : i.toNat < bound + 1 then .ok ⟨i.toNat, h⟩ else .error (.above bound)

def integerOrNull : Value → Except Fault (Option Int)
  | .null => .ok none
  | v => (integer v).map some

/-! ## Numbers -/

def number : Value → Except Fault Double
  | .double d => .ok d
  | .int i =>
    match Double.ofInt? i with
    | some d => .ok d
    | none => .error .notNumber
  | .bool b => .ok (if b then .ofInt 1 else .zero)
  | .text s => NumberText.number s.toList
  | .bytes bs =>
    match Text.ofBytes? bs with
    | some s => NumberText.number s.toList
    | none => .error .numberSyntax
  | _ => .error .notNumber

/-! ## Truth values -/

def boolText (s : String) : Except Fault Bool :=
  let word := Text.lowered s
  if ["0", "off", "f", "false", "n", "no"].contains word then .ok false
  else if ["1", "on", "t", "true", "y", "yes"].contains word then .ok true
  else .error .boolSyntax

/-- Zero and one are truth values; another integer of 64 bits is at least of the right kind. -/
def boolInteger (i : Int) : Except Fault Bool :=
  if i = 0 then .ok false
  else if i = 1 then .ok true
  else if -wordLimit ≤ i ∧ i < wordLimit then .error .boolSyntax
  else .error .notBool

def bool : Value → Except Fault Bool
  | .bool b => .ok b
  | .int i => boolInteger i
  | .double d =>
    match integerDouble d with
    | .ok i => boolInteger i
    | .error _ => .error .notBool
  | .text s => boolText s
  | .bytes bs =>
    match Text.ofBytes? bs with
    | some s => boolText s
    | none => .error .boolSyntax
  | _ => .error .notBool

end Check
end Placement
