import Placement.Numeral
import Placement.Yaml.Moment
import Placement.Decimal

/-!
# Tags of scalars

A `Tag` says what kind of value a node stands for.  `Tag.ofText` finds the tag of a plain scalar from its
text: which texts are numbers, truth values, dates and so on, all others being texts.
-/

namespace Placement.Yaml
set_option autoImplicit false

inductive Tag where
  | null | bool | int | float | binary | timestamp
  | str | seq | map | omap | pairs | set
  /-- The key `<<`, which brings in the entries of other mappings. -/
  | merge
  /-- The key `=`, whose value stands for its whole mapping. -/
  | value
  | unknown
deriving DecidableEq

namespace Tag

/-- What the tags of the standard begin with. -/
def standardUri : String := "tag:yaml.org,2002:"

def standard : List (String × Tag) :=
  [("null", .null), ("bool", .bool), ("int", .int), ("float", .float), ("binary", .binary),
    ("timestamp", .timestamp), ("str", .str), ("seq", .seq), ("map", .map), ("omap", .omap),
    ("pairs", .pairs), ("set", .set), ("merge", .merge), ("value", .value)]

def ofUri (uri : String) : Tag :=
  ((standard.map fun e => (standardUri ++ e.1, e.2)).lookup uri).getD .unknown

/-! ## Forms of plain scalars -/

def nullWords : List String := ["~", "null", "Null", "NULL"]

def boolWords : List String :=
  ["yes", "Yes", "YES", "no", "No", "NO", "true", "True", "TRUE", "false", "False", "FALSE", "on", "On",
    "ON", "off", "Off", "OFF"]

/-- Marks that have a tag of their own as a text, one without values. -/
def markWords : List String := ["!", "&", "*"]

def isOneOf (words : List String) (cs : List Char) : Bool := words.contains (String.ofList cs)

/-- Digits may be grouped by underscores. -/
def isGrouped (c : Char) : Bool := Numeral.isDecimal c || c == '_'

/-- A digit followed by digits and underscores. -/
def isRun (cs : List Char) : Bool := cs.head?.any Numeral.isDecimal && cs.all isGrouped

def isRunIn (base : Nat) (cs : List Char) : Bool :=
  !cs.isEmpty && cs.all fun c => (Numeral.digitIn? base c).isSome || c == '_'

/-- Numbers below sixty, each behind a colon. -/
def isSexagesimal : List Char → Bool
  | [] => true
  | [':', a] => Numeral.isDecimal a
  | ':' :: a :: b :: cs =>
    if Numeral.isDecimal b then decide ('0' ≤ a ∧ a ≤ '5') && isSexagesimal cs
    else Numeral.isDecimal a && isSexagesimal (b :: cs)
  | _ => false

def isInt (cs : List Char) : Bool :=
  match (Decimal.takeSign cs).2 with
  | ['0'] => true
  | '0' :: 'b' :: ds => isRunIn 2 ds
  | '0' :: 'x' :: ds => isRunIn 16 ds
  | '0' :: ds => isRunIn 8 ds
  | ds => isRun (ds.takeWhile isGrouped) && isSexagesimal (ds.dropWhile isGrouped)

/-- An exponent with a sign, or nothing. -/
def isExponent : List Char → Bool
  | [] => true
  | mark :: sign :: ds =>
    (mark == 'e' || mark == 'E') && (sign == '+' || sign == '-') && !ds.isEmpty &&
      ds.all Numeral.isDecimal
  | _ => false

/-- A fraction without the point before it. -/
def isFraction (cs : List Char) : Bool := isExponent (cs.dropWhile isGrouped)

/-- A number with a point, by tens or by sixties, or a name of infinity or of NaN. -/
def isFloat (cs : List Char) : Bool :=
  let body := (Decimal.takeSign cs).2
  let whole := body.takeWhile isGrouped
  isOneOf [".nan", ".NaN", ".NAN"] cs || isOneOf [".inf", ".Inf", ".INF"] body ||
    (match cs with
      | '.' :: d :: ds => Numeral.isDecimal d && isFraction ds
      | _ => false) ||
    (isRun whole && match body.dropWhile isGrouped with
      | '.' :: ds => isFraction ds
      | ':' :: ds =>
        isSexagesimal ((':' :: ds).takeWhile (· != '.')) && match ds.dropWhile (· != '.') with
          | '.' :: es => es.all isGrouped
          | _ => false
      | _ => false)

/-- A time of day may follow the date; a date alone has two digits for month and day. -/
def isTimestamp (cs : List Char) : Bool :=
  match Moment.ofText? cs with
  | some m => m.clock.isSome || cs.length == 10
  | none => false

/-- A line feed at the end does not count. -/
def withoutLastBreak (cs : List Char) : List Char := if cs.getLast? = some '\n' then cs.dropLast else cs

def ofText (text : List Char) : Tag :=
  let cs := withoutLastBreak text
  if text.isEmpty ∨ isOneOf nullWords cs then .null
  else if isOneOf boolWords cs then .bool
  else if isInt cs then .int
  else if isFloat cs then .float
  else if isTimestamp cs then .timestamp
  else if cs = ['<', '<'] then .merge
  else if cs = ['='] then .value
  else if isOneOf markWords cs then .unknown
  else .str

end Tag
end Placement.Yaml
