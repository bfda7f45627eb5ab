import Placement.Double

/-!
# Loosely typed values

A `Value` is what comes in from outside before it is checked: a scalar, a list, a mapping, a set or a
point in time.  A mapping lists its entries in order and a later entry overrides an earlier one.
-/

namespace Placement
set_option autoImplicit false

inductive Value where
  | null
  | bool (b : Bool)
  | int (i : Int)
  | double (d : Double)
  | text (s : String)
  | bytes (bs : List UInt8)
  | moment
  | list (items : List Value)
  | set (members : List Value)
  | mapping (entries : List (Value × Value))
deriving Inhabited

namespace Value

/-- Absence, falsehood, zero and emptiness. -/
def isFalsy : Value → Bool
  | .null => true
  | .bool b => !b
  | .int i => i == 0
  | .double d => d.isZero
  | .text s => s.isEmpty
  | .bytes bs => bs.isEmpty
  | .moment => false
  | .list items => items.isEmpty
  | .set members => members.isEmpty
  | .mapping entries => entries.isEmpty

def isCollection : Value → Bool
  | .list _ | .set _ | .mapping _ => true
  | _ => false

def isText (name : String) : Value → Bool
  | .text s => s == name
  | _ => false

/-- The value of the last entry whose key is the given text. -/
def lookup? (name : String) : List (Value × Value) → Option Value
  | [] => none
  | e :: es =>
    match lookup? name es with
    | some v => some v
    | none => if e.1.isText name then some e.2 else none

def ofFields (fields : List (String × Value)) : Value :=
  .mapping (fields.map fun e => (.text e.1, e.2))

end Value
end Placement
