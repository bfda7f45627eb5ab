import Placement.Text

/-!
# Well-formed bytes

Which bytes may stand behind one another in the encoding of a text.  `Utf8.soundLength` counts the bytes before the
first that cannot stand where it stands, and `Utf8.decodeFront` is the text of those that are well-formed.
-/

namespace Placement.Text.Utf8
set_option autoImplicit false

/-- The ranges of the bytes behind the first byte of a character, which may hang on the byte that comes next; none if no
character begins so.  Half of a surrogate pair is out of place only with its last byte. -/
def followers? (b : UInt8) (next : Option UInt8) : Option (List (UInt8 × UInt8)) :=
  let any : UInt8 × UInt8 := (0x80, 0xbf)
  let nothing : UInt8 × UInt8 := (1, 0)
  if b < 0x80 then some []
  else if b < 0xc2 then none
  else if b < 0xe0 then some [any]
  else if b == 0xe0 then some [(0xa0, 0xbf), any]
  else if b == 0xed then some [any, if next.any (0xa0 ≤ ·) then nothing else any]
  else if b < 0xf0 then some [any, any]
  else if b == 0xf0 then some [(0x90, 0xbf), any, any]
  else if b < 0xf4 then some [any, any, any]
  else if b == 0xf4 then some [(0x80, 0x8f), any, any]
  else none

/-- The number of bytes before the first one out of place, where the rest of a character is expected first. -/
def soundLength : List (UInt8 × UInt8) → List UInt8 → Nat
  | _, [] => 0
  | [], b :: bs =>
    match followers? b bs.head? with
    | some expected => soundLength expected bs + 1
    | none => 0
  | (low, high) :: expected, b :: bs =>
    if low ≤ b ∧ b ≤ high then soundLength expected bs + 1 else 0

/-- The text of bytes of which none is out of place, without a character that is not complete. -/
def decodeFront (bs : List UInt8) : List Char :=
  let fronts := (List.range 4).map fun n => bs.take (bs.length - n)
  match fronts.findSome? ofBytes? with
  | some s => s.toList
  | none => []

end Placement.Text.Utf8
