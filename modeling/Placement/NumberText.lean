import Placement.Decimal
import Placement.Fault
import Placement.Text

/-!
# Numbers written as texts

An integer is `bare` if it is an optional minus sign with a zero, or with digits of which the first is not zero.
`NumberText.integer` reads bare integers and those that are bare after `tidied?` has removed what people add to
them: white space, a plus sign, leading zeros, a fraction of zeros and underscores between digits.
`NumberText.number` reads decimal literals.
-/

namespace Placement.NumberText
set_option autoImplicit false

/-! ## Bare integers -/

/-- The digits of a bare integer in front of a text, and what comes behind them. -/
def leadingDigits : List Char → List Char × List Char
  | '0' :: cs => if cs.head?.any Numeral.isDecimal then ([], '0' :: cs) else (['0'], cs)
  | cs => (cs.takeWhile Numeral.isDecimal, cs.dropWhile Numeral.isDecimal)

/-- The value of a bare integer.  A sign with digits that is too long is refused as such whatever follows it. -/
def bare (cs : List Char) : Except Fault Int :=
  let negative := cs.head? == some '-'
  let (ds, rest) := leadingDigits (if negative then cs.drop 1 else cs)
  if Numeral.digitLimit < ds.length + (if negative then 1 else 0) then .error .integerSize
  else
    match Numeral.value? 10 ds, rest with
    | some n, [] => .ok (if negative then -(n : Int) else n)
    | _, _ => .error .integerSyntax

/-! ## Tidying -/

/-- What remains of a text behind a zero, given the character right before it: the first other digit or the first
minus sign with all that follows.  Of zeros and underscores alone the last one remains, and so does the one before a
point. -/
def afterZero (last : Char) : List Char → Option (List Char)
  | [] => some [last]
  | c :: cs =>
    if c == '0' || c == '_' then afterZero c cs
    else if Numeral.isDecimal c || c == '-' then some (c :: cs)
    else if c == '.' then some (last :: c :: cs)
    else none

/-- Drops leading zeros from a text that begins with a digit or with a minus sign. -/
def withoutLeadingZeros? : List Char → Option (List Char)
  | [] => none
  | c :: cs =>
    if c == '0' then afterZero c cs
    else if Numeral.isDecimal c || c == '-' then some (c :: cs)
    else none

/-- Drops the point and all that follows it, if that is zeros and at least one of them. -/
def withoutIdleFraction (cs : List Char) : List Char :=
  let fraction := (cs.dropWhile (· != '.')).drop 1
  if !fraction.isEmpty && fraction.all (· == '0') then cs.takeWhile (· != '.') else cs

/-- Whether no underscore stands at an end or beside another one. -/
def hasTidyUnderscores (cs : List Char) : Bool :=
  cs.head? != some '_' && cs.getLast? != some '_' && !(cs.zip (cs.drop 1)).contains ('_', '_')

/-- Drops underscores that stand between other characters. -/
def withoutUnderscores (cs : List Char) : List Char :=
  if hasTidyUnderscores cs then cs.filter (· != '_') else cs

def tidiedBody? (cs : List Char) : Option (List Char) :=
  (withoutLeadingZeros? cs).map fun ds => withoutUnderscores (withoutIdleFraction ds)

/-- A text without what may be added to a bare integer.  No minus sign may follow a plus sign. -/
def tidied? (cs : List Char) : Option (List Char) :=
  match Text.trim cs with
  | '+' :: '-' :: _ => none
  | '+' :: body => tidiedBody? body
  | '-' :: body => (tidiedBody? body).map ('-' :: ·)
  | body => tidiedBody? body

/-! ## Reading -/

/-- An integer as it stands or after tidying; only as it stands it can be too long. -/
def integer (cs : List Char) : Except Fault Int :=
  match bare cs with
  | .error .integerSyntax =>
    match (tidied? cs).map bare with
    | some (.ok i) => .ok i
    | _ => .error .integerSyntax
  | result => result

/-- A decimal literal with white space around it, or else one with underscores and nothing around it. -/
def number (cs : List Char) : Except Fault Double :=
  match Double.ofLiteral? (Text.trim cs) with
  | some d => .ok d
  | none =>
    if hasTidyUnderscores cs then
      match Double.ofLiteral? (cs.filter (· != '_')) with
      | some d => .ok d
      | none => .error .numberSyntax
    else .error .numberSyntax

end Placement.NumberText
