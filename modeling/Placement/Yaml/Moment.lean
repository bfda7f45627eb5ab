import Placement.Yaml.Cursor
import Placement.Yaml.Error

/-!
# Points in time

A `Moment` is a date, perhaps with a time of day and an offset.  `Moment.ofText?` reads its written form and
`Moment.fault?` tells what keeps it from being a point in time.
-/

namespace Placement.Yaml
set_option autoImplicit false

structure Clock where
  hour : Nat
  minute : Nat
  second : Nat
  /-- Minutes east of the prime meridian. -/
  offset : Int

structure Moment where
  year : Nat
  month : Nat
  day : Nat
  clock : Option Clock

namespace Moment

/-! ## Reading -/

/-- A number of at least `least` and at most `most` digits. -/
def number? (least most : Nat) (cs : List Char) : Option (Nat × List Char) :=
  let ds := (cs.take most).takeWhile Numeral.isDecimal
  if ds.length < least then none else (Numeral.value? 10 ds).map fun n => (n, cs.drop ds.length)

/-- A number behind a mark. -/
def marked? (mark : Char) (least : Nat) (cs : List Char) : Option (Nat × List Char) :=
  if cs.head? = some mark then number? least 2 (cs.drop 1) else none

/-- The minutes of an offset, to the end of the text. -/
def offset? : List Char → Option Int
  | [] => some 0
  | ['Z'] => some 0
  | sign :: cs =>
    if sign = '+' ∨ sign = '-' then do
      let (hours, cs) ← number? 1 2 cs
      let (minutes, cs) ← if cs.isEmpty then some (0, []) else marked? ':' 2 cs
      if cs.isEmpty then
        let east : Int := (hours * 60 + minutes : Nat)
        some (if sign = '-' then -east else east)
      else none
    else none

def clock? (cs : List Char) : Option Clock := do
  let afterGap := cs.dropWhile isSpaceOrTab
  let cs ← if cs.head? = some 'T' ∨ cs.head? = some 't' then some (cs.drop 1)
    else if afterGap.length < cs.length then some afterGap else none
  let (hour, cs) ← number? 1 2 cs
  let (minute, cs) ← marked? ':' 2 cs
  let (second, cs) ← marked? ':' 2 cs
  let cs := if cs.head? = some '.' then (cs.drop 1).dropWhile Numeral.isDecimal else cs
  let zone := cs.dropWhile isSpaceOrTab
  if zone.isEmpty ∧ ¬ cs.isEmpty then none
  else (offset? zone).map fun offset => ⟨hour, minute, second, offset⟩

def ofText? (cs : List Char) : Option Moment := do
  let (year, cs) ← number? 4 4 cs
  let (month, cs) ← marked? '-' 1 cs
  let (day, cs) ← marked? '-' 1 cs
  if cs.isEmpty then some ⟨year, month, day, none⟩
  else (clock? cs).map fun clock => ⟨year, month, day, some clock⟩

/-! ## Validity -/

def isLeap (year : Nat) : Bool := year % 4 == 0 && (year % 100 != 0 || year % 400 == 0)

def daysIn (year month : Nat) : Nat :=
  if month = 2 then if isLeap year then 29 else 28
  else if [4, 6, 9, 11].contains month then 30
  else 31

def dateFault? (m : Moment) : Option ScalarFault :=
  if m.year = 0 then some .zeroYear
  else if m.month < 1 ∨ 12 < m.month then some .month
  else if m.day < 1 ∨ daysIn m.year m.month < m.day then some .day
  else none

def clockFault? (c : Clock) : Option ScalarFault :=
  if 23 < c.hour then some .hour
  else if 59 < c.minute then some .minute
  else if 59 < c.second then some .second
  else none

/-- The offset is looked at first, then the date, then the time of day. -/
def fault? (m : Moment) : Option ScalarFault :=
  match m.clock with
  | none => m.dateFault?
  | some c =>
    if 24 * 60 ≤ c.offset.natAbs then
      some (.offset (c.offset.fdiv 1440) ((c.offset.fmod 1440).toNat * 60))
    else m.dateFault? <|> clockFault? c

end Moment
end Placement.Yaml
