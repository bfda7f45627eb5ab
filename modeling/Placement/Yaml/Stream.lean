import Placement.Text.Utf8
import Placement.Yaml.Cursor
import Placement.Yaml.Error

/-!
# Texts that break off

A text is fetched block by block while it is read, and every block is looked over before its first character is
passed on.  A `Stream` is the part of a text before the first block that cannot be fetched, together with what is
wrong with that block.  An error that comes up before is thus not covered by one that lies far behind.
-/

namespace Placement.Yaml
set_option autoImplicit false

structure Stream where
  chars : List Char
  /-- What comes behind the characters, unless it is the end of the text. -/
  fault : Option Error

namespace Stream

/-- The number of characters in a block; the first one is twice as long. -/
def blockLength : Nat := 4096

def blockStart (index : Nat) : Nat :=
  if index < 2 * blockLength then 0 else index / blockLength * blockLength

/-- The characters before the block of the one at `index`. -/
def before (index : Nat) (fault : Error) (cs : List Char) : Stream := ⟨cs.take (blockStart index), some fault⟩

/-- Breaks off before the block with a character that no document may contain. -/
def printable (s : Stream) : Stream :=
  let front := s.chars.takeWhile isPrintable
  if front.length = s.chars.length then s
  else before front.length (.malformed .unprintable) s.chars

def ofChars (cs : List Char) : Stream := printable ⟨Text.unifyLines cs, none⟩

/-! ## Bytes -/

/-- Bytes are decoded this many at a time. -/
def decodedLength : Nat := 8192

/-- The characters of the bytes before those that are decoded together with the first one out of place.  A carriage
return at their end waits for what follows it. -/
def decodable (bs : List UInt8) : List Char :=
  let sound := Text.Utf8.soundLength [] bs
  let whole := if sound = bs.length then sound else sound / decodedLength * decodedLength
  let cs := Text.Utf8.decodeFront (bs.take whole)
  Text.unifyLines (if cs.getLast? = some '\r' then cs.dropLast else cs)

def ofBytes (bs : List UInt8) : Stream :=
  match Text.ofBytes? bs with
  | some s => ofChars s.toList
  | none =>
    let cs := decodable bs
    printable (before cs.length .notText cs)

end Stream
end Placement.Yaml
