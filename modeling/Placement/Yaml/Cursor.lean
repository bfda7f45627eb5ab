/-!
# Places in a text

A `Cursor` is the rest of a text together with the number of characters, lines and columns before it.
The character classes of block structure stand here too; `none` is the end of the text.
-/

namespace Placement.Yaml
set_option autoImplicit false

/-! ## Character classes -/

def isBreak (c : Char) : Bool := c == '\n' || c == '\x85' || c == '\u2028' || c == '\u2029'

def isSpaceOrTab (c : Char) : Bool := c == ' ' || c == '\t'

def endsLine : Option Char → Bool
  | none => true
  | some c => isBreak c

def endsField : Option Char → Bool
  | none => true
  | some c => c == ' ' || isBreak c

def endsWord : Option Char → Bool
  | none => true
  | some c => isSpaceOrTab c || isBreak c

/-- Characters that a document may contain. -/
def isPrintable (c : Char) : Bool :=
  let n := c.toNat
  n == 9 || n == 10 || n == 13 || (0x20 ≤ n && n ≤ 0x7e) || n == 0x85 || (0xa0 ≤ n && n ≤ 0xd7ff) ||
    (0xe000 ≤ n && n ≤ 0xfffd) || 0x10000 ≤ n

/-- The mark that some editors put at the start of a text. -/
def byteOrderMark : Char := '\ufeff'

def isWordChar (c : Char) : Bool := (c.isAlphanum || c == '-' || c == '_')

/-- A line break as it stands in a scalar: two of the four kinds are line feeds. -/
def breakText (c : Char) : Char := if c == '\x85' then '\n' else c

/-! ## Cursors -/

structure Cursor where
  rest : List Char
  index : Nat
  line : Nat
  column : Nat

namespace Cursor

def start (cs : List Char) : Cursor := ⟨cs, 0, 0, 0⟩

def head? (c : Cursor) : Option Char := c.rest.head?

def second? (c : Cursor) : Option Char := (c.rest.drop 1).head?

def step (c : Cursor) : Cursor :=
  match c.rest with
  | [] => c
  | x :: rest =>
    if isBreak x then ⟨rest, c.index + 1, c.line + 1, 0⟩
    else if x == byteOrderMark then ⟨rest, c.index + 1, c.line, c.column⟩
    else ⟨rest, c.index + 1, c.line, c.column + 1⟩

def skip : Nat → Cursor → Cursor
  | 0, c => c
  | n + 1, c => skip n c.step

def skipWhile (p : Char → Bool) (c : Cursor) : Cursor := c.skip (c.rest.takeWhile p).length

/-- Passes spaces, but not beyond a column. -/
def skipSpacesTo (column : Nat) (c : Cursor) : Cursor :=
  c.skip (min (column - c.column) (c.rest.takeWhile (· == ' ')).length)

/-- Passes a line break, if there is one, and tells how it stands in a scalar. -/
def takeBreak (c : Cursor) : List Char × Cursor :=
  match c.head? with
  | some x => if isBreak x then ([breakText x], c.step) else ([], c)
  | none => ([], c)

/-- Whether three equal characters stand here as a word of their own. -/
def hasMark (x : Char) (c : Cursor) : Bool :=
  c.rest.take 3 == [x, x, x] && endsWord (c.rest.drop 3).head?

/-- Whether a document begins or ends here; the column is for the caller to look at. -/
def atDocumentMark (c : Cursor) : Bool := c.hasMark '-' || c.hasMark '.'

/-- Passes spaces and a comment up to the end of the line, and the line break; none if anything else
stands in the line. -/
def restOfLine? (c : Cursor) : Option Cursor :=
  let c := c.skipWhile (· == ' ')
  let c := if c.head? = some '#' then c.skipWhile (!isBreak ·) else c
  if endsLine c.head? then some c.takeBreak.2 else none

end Cursor
end Placement.Yaml
