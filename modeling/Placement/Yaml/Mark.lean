import Placement.Text
import Placement.Yaml.Cursor
import Placement.Yaml.Token

/-!
# Anchors, tags and directives

The tokens that begin with `&`, `*`, `!` and `%`.  Each reader starts at a cursor and returns a token with
the place behind it.
-/

namespace Placement.Yaml.Mark
set_option autoImplicit false

/-- The longest run of characters of a class, which must not be empty. -/
def word (p : Char → Bool) (cause : Malformed) (c : Cursor) : Except Error (String × Cursor) :=
  let cs := c.rest.takeWhile p
  if cs.isEmpty then .error (.malformed cause) else .ok (String.ofList cs, c.skip cs.length)

/-- Requires something of the next character. -/
def followedBy {α : Type} (p : Option Char → Bool) (cause : Malformed) (x : α × Cursor) :
    Except Error (α × Cursor) :=
  if p x.2.head? then .ok x else .error (.malformed cause)

/-! ## Anchors -/

def endsAnchor : Option Char → Bool
  | none => true
  | some c => isSpaceOrTab c || isBreak c || ['?', ':', ',', ']', '}', '%', '@', '\x60'].contains c

/-- The name of an anchor or of an alias, from behind its mark on. -/
def anchorName (c : Cursor) : Except Error (String × Cursor) :=
  (word isWordChar .anchor c).bind (followedBy endsAnchor .anchor)

/-! ## Tags -/

def isUriChar (c : Char) : Bool := c.isAlphanum || "-;/?:@&=+$,_.!~*'()[]%".toList.contains c

/-- The bytes that characters and escapes of two hexadecimal digits stand for. -/
def uriBytes? : List Char → Option (List UInt8)
  | [] => some []
  | '%' :: a :: b :: cs =>
    match Numeral.digitIn? 16 a, Numeral.digitIn? 16 b with
    | some x, some y => (uriBytes? cs).map (UInt8.ofNat (16 * x + y) :: ·)
    | _, _ => none
  | '%' :: _ => none
  | c :: cs => (uriBytes? cs).map (UInt8.ofNat c.toNat :: ·)

def uri (cause : Malformed) (c : Cursor) : Except Error (String × Cursor) :=
  let cs := c.rest.takeWhile isUriChar
  match (uriBytes? cs).bind Text.ofBytes? with
  | some s => if cs.isEmpty then .error (.malformed cause) else .ok (s, c.skip cs.length)
  | none => .error (.malformed cause)

/-- An exclamation mark, alone before a space or else with a word and a second mark. -/
def handle (cause : Malformed) (c : Cursor) : Except Error (String × Cursor) :=
  if c.head? ≠ some '!' then .error (.malformed cause)
  else if c.second? = some ' ' then .ok ("!", c.step)
  else
    let name := c.step.rest.takeWhile isWordChar
    let d := c.step.skip name.length
    if d.head? = some '!' then .ok (String.ofList ('!' :: name ++ ['!']), d.step)
    else .error (.malformed cause)

/-- The tag of a node, from its exclamation mark on. -/
def tag (c : Cursor) : Except Error (Token × Cursor) :=
  let suffixed (handle : Option String) (d : Cursor) : Except Error (Token × Cursor) :=
    (uri .tag d).map fun x => (.tag handle x.1, x.2)
  let read : Except Error (Token × Cursor) :=
    if c.second? = some '<' then
      ((suffixed none (c.skip 2)).bind (followedBy (· == some '>') .tag)).map fun x => (x.1, x.2.step)
    else if endsWord c.second? then .ok (.tag none "!", c.step)
    else if (c.step.rest.takeWhile fun x => !endsField (some x)).contains '!' then
      (handle .tag c).bind fun x => suffixed (some x.1) x.2
    else suffixed (some "!") c.step
  read.bind (followedBy endsField .tag)

/-! ## Directives -/

def digits (c : Cursor) : Except Error (Nat × Cursor) :=
  let ds := c.rest.takeWhile Numeral.isDecimal
  if Numeral.digitLimit < ds.length then .error (.scalar (.tooManyDigits ds.length))
  else
    match Numeral.value? 10 ds with
    | some n => .ok (n, c.skip ds.length)
    | none => .error (.malformed .directive)

/-- Two numbers with a point between them; the first of them counts. -/
def version (c : Cursor) : Except Error (Token × Cursor) := do
  let (major, d) ← (digits (c.skipWhile (· == ' '))).bind (followedBy (· == some '.') .directive)
  let (_, e) ← (digits d.step).bind (followedBy endsField .directive)
  pure (.versionDirective major, e)

def tagHandle (c : Cursor) : Except Error (Token × Cursor) := do
  let (name, d) ← (handle .directive (c.skipWhile (· == ' '))).bind
    (followedBy (· == some ' ') .directive)
  let (text, e) ← (uri .directive (d.skipWhile (· == ' '))).bind (followedBy endsField .directive)
  pure (.tagDirective name text, e)

/-- A directive from its percent sign to the end of its line. -/
def directive (c : Cursor) : Except Error (Token × Cursor) := do
  let (name, d) ← (word isWordChar .directive c.step).bind (followedBy endsField .directive)
  let (token, e) ←
    if name = "YAML" then version d
    else if name = "TAG" then tagHandle d
    else pure (.otherDirective, d.skipWhile (!isBreak ·))
  match e.restOfLine? with
  | some f => pure (token, f)
  | none => throw (.malformed .directive)

end Placement.Yaml.Mark
