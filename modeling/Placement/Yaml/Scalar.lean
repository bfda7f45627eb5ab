import Placement.Text.Case
import Placement.Text.Digit
import Placement.Value
import Placement.Yaml.Tag

/-!
# Values of scalars

`Scalar.value` reads the text of a scalar as its tag says.
-/

namespace Placement.Yaml.Scalar
set_option autoImplicit false

def fault {α : Type} (f : ScalarFault) : Except Error α := .error (.scalar f)

def parts : List Char → List (List Char)
  | [] => [[]]
  | ':' :: cs => [] :: parts cs
  | c :: cs =>
    match parts cs with
    | p :: ps => (c :: p) :: ps
    | [] => [[c]]

def isMinus (cs : List Char) : Bool := cs.head? == some '-'

/-! ## Integers -/

/-- The letter that may stand behind a zero in front of the digits of a base. -/
def baseMark? (base : Nat) : Option Char :=
  if base = 2 then some 'b' else if base = 8 then some 'o' else if base = 16 then some 'x' else none

def withoutMark (base : Nat) : List Char → List Char
  | '0' :: mark :: ds => if baseMark? base = some mark.toLower then ds else '0' :: mark :: ds
  | ds => ds

/-- An integer in a base, perhaps with white space around it and with a sign.  Its digits may be those of any
script; decimal ones are counted before anything that follows them is looked at. -/
def integer (base : Nat) (text : List Char) : Except Error Int :=
  let (negative, body) := Decimal.takeSign ((Text.trim text).map Text.Digit.plain)
  let body := withoutMark base body
  let ds := body.takeWhile fun c => (Numeral.digitIn? base c).isSome
  if base = 10 ∧ Numeral.digitLimit < ds.length then fault (.tooManyDigits ds.length)
  else
    match Numeral.value? base body with
    | some n => .ok (if negative then -(n : Int) else n)
    | none => fault (.badInteger base text)

/-- Numbers between colons are digits of base sixty. -/
def sexagesimal (cs : List Char) : Except Error Int :=
  ((parts cs).mapM (integer 10)).map fun ds => ds.foldl (fun acc d => acc * 60 + d) 0

def unsignedInt (body : List Char) : Except Error Int :=
  match body with
  | [] => fault .noDigits
  | ['0'] => .ok 0
  | '0' :: 'b' :: ds => integer 2 ds
  | '0' :: 'x' :: ds => integer 16 ds
  | '0' :: ds => integer 8 ('0' :: ds)
  | ds => if ds.contains ':' then sexagesimal ds else integer 10 ds

/-- Underscores are dropped; the form of the digits gives the base. -/
def int (text : List Char) : Except Error Int :=
  let cs := text.filter (· != '_')
  (unsignedInt (Decimal.takeSign cs).2).map fun i => if isMinus cs then -i else i

/-! ## Numbers -/

def number (text : List Char) : Except Error Double :=
  match Double.ofLiteral? ((Text.trim text).map Text.Digit.plain) with
  | some d => .ok d
  | none => fault (.badNumber text)

/-- Adds the places of a number of base sixty, the last place first. -/
def addPlaces : Nat → Double → List Double → Except Error Double
  | _, sum, [] => .ok sum
  | power, sum, d :: ds =>
    match Double.ofInt? power with
    | some p => addPlaces (power * 60) (sum.add (d.mul p)) ds
    | none => fault .tooLarge

def unsignedFloat (body : List Char) : Except Error Double :=
  if body = ".inf".toList then .ok (.infinite false)
  else if body = ".nan".toList then .ok .nan
  else if body.contains ':' then
    ((parts body).mapM number).bind fun ds => addPlaces 1 .zero ds.reverse
  else number body

/-- Underscores are dropped and letters count in either case. -/
def float (text : List Char) : Except Error Double :=
  let cs := Text.Case.lower (text.filter (· != '_'))
  if cs.isEmpty then fault .noDigits
  else (unsignedFloat (Decimal.takeSign cs).2).map fun d => if isMinus cs then d.neg else d

/-! ## Other scalars -/

def bool (text : List Char) : Except Error Bool :=
  let word := Text.Case.lower text
  if Tag.isOneOf ["yes", "true", "on"] word then .ok true
  else if Tag.isOneOf ["no", "false", "off"] word then .ok false
  else fault (.noTruthValue word)

def timestamp (text : List Char) : Except Error Value :=
  match Moment.ofText? (Tag.withoutLastBreak text) with
  | none => fault .noMoment
  | some m =>
    match m.fault? with
    | some f => fault f
    | none => .ok .moment

/-- The six bits that a character of the base 64 alphabet stands for. -/
def sextet? (c : Char) : Option Nat :=
  if 'A' ≤ c ∧ c ≤ 'Z' then some (c.toNat - 65)
  else if 'a' ≤ c ∧ c ≤ 'z' then some (c.toNat - 71)
  else if '0' ≤ c ∧ c ≤ '9' then some (c.toNat + 4)
  else if c = '+' then some 62
  else if c = '/' then some 63
  else none

/-- Bytes from groups of four characters; `held` has the sextets of the group so far, last first, and `pads`
counts the equals signs right before.  Foreign characters are passed over, and padding that completes a group
ends the text. -/
def base64 (held : List Nat) (pads : Nat) : List Char → Option (List UInt8)
  | [] => if held.isEmpty then some [] else none
  | c :: cs =>
    let byte (n : Nat) : UInt8 := UInt8.ofNat n
    if c = '=' then
      if 2 ≤ held.length ∧ 4 ≤ held.length + pads + 1 then some []
      else base64 held (if 2 ≤ held.length then pads + 1 else pads) cs
    else
      match sextet? c, held with
      | none, _ => base64 held pads cs
      | some z, [y, _, _] => (base64 [] 0 cs).map fun bs => byte (y % 4 * 64 + z) :: bs
      | some z, [y, x] => (base64 [z, y, x] 0 cs).map fun bs => byte (y % 16 * 16 + z / 4) :: bs
      | some z, [y] => (base64 [z, y] 0 cs).map fun bs => byte (y * 4 + z / 16) :: bs
      | some z, _ => base64 [z] 0 cs

def binary (text : List Char) : Except Error Value :=
  match if text.all fun c => c.toNat < 128 then base64 [] 0 text else none with
  | some bs => .ok (.bytes bs)
  | none => .error (.malformed .badBase64)

/-- The value of a scalar; collections are no scalars and an unknown tag has no value. -/
def value (tag : Tag) (text : List Char) : Except Error Value :=
  match tag with
  | .null => .ok .null
  | .bool => (bool text).map .bool
  | .int => (int text).map .int
  | .float => (float text).map .double
  | .binary => binary text
  | .timestamp => timestamp text
  | .str => .ok (.text (String.ofList text))
  | .seq | .map | .omap | .pairs | .set => .error (.malformed .wrongKind)
  | .merge | .value | .unknown => .error (.malformed .unknownTag)

end Placement.Yaml.Scalar
