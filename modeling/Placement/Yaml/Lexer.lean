import Placement.Yaml.Mark
import Placement.Yaml.ScalarText
import Placement.Yaml.Stream

/-!
# Cutting a text into tokens

A `Lexer` is what is known between two tokens: the place in the text, the columns of the open block
collections, the number of open brackets, and the keys that a colon may still complete.  `Lexer.step` reads
one token; a colon behind a key puts further tokens in front of that key.  `Lexer.tokens` gives all tokens of
a text.

A token is taken no earlier than needed, and a key that may still be completed holds it back together with all that
follow.  So where no further token can be read, only the tokens that are not held back come before `broken`.
-/

namespace Placement.Yaml
set_option autoImplicit false

/-- A node that turns out to be a key when a colon follows in the same line. -/
structure PendingKey where
  level : Nat
  position : Nat
  index : Nat
  line : Nat
  column : Nat
  /-- The node begins an entry of the innermost block collection, so that it has to be a key. -/
  required : Bool

/-- A key is stale in another line, or too many characters before the place. -/
def PendingKey.isStale (c : Cursor) (k : PendingKey) : Bool :=
  k.line != c.line || decide (k.index + 1024 < c.index)

structure Lexer where
  /-- A number that exceeds the length of the text. -/
  limit : Nat
  cursor : Cursor
  /-- What comes behind the text, unless it is its end. -/
  fault : Option Error
  /-- Columns of the open block collections, innermost first. -/
  columns : List Nat
  /-- The number of open brackets. -/
  level : Nat
  /-- The keys so far, at most one of each level, innermost first. -/
  pending : List PendingKey
  keyAllowed : Bool
  /-- The tokens so far, last first, and their number. -/
  output : List Token
  count : Nat

namespace Lexer

def start (s : Stream) : Lexer := ⟨s.chars.length + 1, .start s.chars, s.fault, [], 0, [], true, [], 0⟩

def inFlow (l : Lexer) : Bool := l.level != 0

/-- The column of the innermost block collection; before the first one it lies left of the text. -/
def indent (l : Lexer) : Int :=
  match l.columns with
  | [] => -1
  | column :: _ => column

def push (t : Token) (l : Lexer) : Lexer := { l with output := t :: l.output, count := l.count + 1 }

def put (t : Token) (c : Cursor) (keyAllowed : Bool) (l : Lexer) : Lexer :=
  { l.push t with cursor := c, keyAllowed := keyAllowed }

/-- Where the text breaks off no place is known to be its end. -/
def checked (l : Lexer) : Except Error Lexer :=
  match l.cursor.rest, l.fault with
  | [], some e => .error e
  | _, _ => .ok l

/-! ## Keys -/

/-- The pending key that stands between the same brackets as the place. -/
def key? (l : Lexer) : Option PendingKey := l.pending.head?.filter (·.level == l.level)

def dropKey (l : Lexer) : Except Error Lexer :=
  match l.key? with
  | some k => if k.required then .error (.malformed .unfinishedKey) else .ok { l with pending := l.pending.drop 1 }
  | none => .ok l

/-- Takes down that the node that begins here may become a key. -/
def saveKey (l : Lexer) : Except Error Lexer :=
  if l.keyAllowed then
    l.dropKey.map fun l =>
      let k : PendingKey :=
        { level := l.level
          position := l.count
          index := l.cursor.index
          line := l.cursor.line
          column := l.cursor.column
          required := !l.inFlow && decide (l.indent = l.cursor.column) }
      { l with pending := k :: l.pending }
  else .ok l

/-- Gives up all stale keys; a key around a stale one is stale too. -/
def dropStale (l : Lexer) : Except Error Lexer :=
  let (fresh, stale) := l.pending.span fun k => !k.isStale l.cursor
  if stale.any (·.required) then .error (.malformed .unfinishedKey) else .ok { l with pending := fresh }

/-! ## Block collections -/

/-- Closes the block collections that lie to the right of a column. -/
def closeTo (column : Int) (l : Lexer) : Lexer :=
  if l.inFlow then l
  else
    let closed := l.columns.takeWhile fun x : Nat => decide (column < x)
    closed.foldl (fun l _ => l.push .blockEnd) { l with columns := l.columns.drop closed.length }

/-- Opens a block collection at a column, unless it lies in the innermost one already. -/
def openAt (column : Nat) (t : Token) (l : Lexer) : Lexer :=
  if l.indent < column then ({ l with columns := column :: l.columns } : Lexer).push t else l

/-- Puts the tokens of the pending key of the place in front of the node that is one. -/
def insertKey (k : PendingKey) (l : Lexer) : Lexer :=
  let later := l.count - k.position
  let opens := !l.inFlow && decide (l.indent < k.column)
  let marks : List Token := if opens then [.key, .blockMappingStart] else [.key]
  { l with
    pending := l.pending.drop 1
    columns := if opens then k.column :: l.columns else l.columns
    output := l.output.take later ++ marks ++ l.output.drop later
    count := l.count + marks.length }

/-! ## White space -/

/-- Passes spaces, comments and line breaks; the flag tells whether a line end was among them. -/
def gap : Nat → Cursor → Bool × Cursor
  | 0, c => (false, c)
  | fuel + 1, c =>
    let d := c.skipWhile (· == ' ')
    let e := if d.head? = some '#' then d.skipWhile (!isBreak ·) else d
    match e.takeBreak with
    | ([], _) => (false, e)
    | (_, f) => (true, (gap fuel f).2)

/-- Goes to the next token, drops stale keys and closes block collections. -/
def advance (l : Lexer) : Except Error Lexer :=
  let c := l.cursor
  let c := if c.index = 0 ∧ c.head? = some byteOrderMark then c.step else c
  let (crosses, d) := gap l.limit c
  let l := { l with cursor := d, keyAllowed := l.keyAllowed || (crosses && !l.inFlow) }
  l.checked.bind fun l => l.dropStale.map (closeTo d.column)

/-! ## Tokens by kind -/

/-- The token of a mark outside all collections. -/
def outermost (l : Lexer) (read : Cursor → Except Error (Token × Cursor)) : Except Error Lexer :=
  (l.closeTo (-1)).dropKey.bind fun l => (read l.cursor).map fun x => l.put x.1 x.2 false

def node (l : Lexer) (read : Cursor → Except Error (Token × Cursor)) : Except Error Lexer :=
  l.saveKey.bind fun l => (read l.cursor).map fun x => l.put x.1 x.2 false

def openBracket (t : Token) (l : Lexer) : Except Error Lexer :=
  l.saveKey.map fun l => { l.put t l.cursor.step true with level := l.level + 1 }

def closeBracket (t : Token) (l : Lexer) : Except Error Lexer :=
  l.dropKey.bind fun l =>
    match l.level with
    | 0 => .error (.malformed .unmatchedBracket)
    | level + 1 => .ok { l.put t l.cursor.step false with level := level }

/-- A mark that opens a block collection where a key may stand. -/
def blockMark (start t : Token) (cause : Malformed) (l : Lexer) : Except Error Lexer :=
  if l.inFlow || l.keyAllowed then
    let m := if l.inFlow then l else l.openAt l.cursor.column start
    m.dropKey.map fun m => m.put t m.cursor.step (t == .blockEntry || !m.inFlow)
  else .error (.malformed cause)

def colon (l : Lexer) : Except Error Lexer :=
  match l.key? with
  | some k => .ok ((l.insertKey k).put .value l.cursor.step false)
  | none => l.blockMark .blockMappingStart .value .misplacedValue

def plain (l : Lexer) : Except Error Lexer :=
  l.saveKey.map fun l =>
    let (text, crosses, c) := Plain.read l.limit l.inFlow (l.indent + 1) l.cursor
    l.put (.scalar text true) c crosses

/-- A quoted scalar that has no end in the text may have one where the text breaks off. -/
def quoted (quote : Char) (l : Lexer) : Except Error Lexer :=
  l.node fun c =>
    match Quoted.read l.limit quote c.step with
    | .ok (text, d) => .ok (.scalar text false, d)
    | .error (.malformed .unclosedQuote) => .error (l.fault.getD (.malformed .unclosedQuote))
    | .error e => .error e

def blockScalar (folded : Bool) (l : Lexer) : Except Error Lexer :=
  l.dropKey.bind fun l =>
    (Block.read l.limit folded l.indent l.cursor.step).map fun x => l.put (.scalar x.1 false) x.2 true

def isIndicator (x : Char) : Bool :=
  [',', '[', ']', '{', '}', '#', '&', '*', '!', '|', '>', '\'', '"', '%', '@', '\x60'].contains x

/-- Whether a plain scalar begins here. -/
def startsPlain (inFlow : Bool) (x : Char) (next : Option Char) : Bool :=
  if x == '-' then !endsWord next
  else if x == '?' || x == ':' then !inFlow && !endsWord next
  else !isSpaceOrTab x && !isBreak x && !isIndicator x

/-- Reads the token that begins with `x`. -/
def token (x : Char) (l : Lexer) : Except Error Lexer :=
  let c := l.cursor
  if c.column = 0 ∧ x = '%' then l.outermost Mark.directive
  else if c.column = 0 ∧ c.hasMark '-' then l.outermost fun d => .ok (.documentStart, d.skip 3)
  else if c.column = 0 ∧ c.hasMark '.' then l.outermost fun d => .ok (.documentEnd, d.skip 3)
  else if x = '[' then l.openBracket .flowSequenceStart
  else if x = '{' then l.openBracket .flowMappingStart
  else if x = ']' then l.closeBracket .flowSequenceEnd
  else if x = '}' then l.closeBracket .flowMappingEnd
  else if x = ',' then l.dropKey.map fun l => l.put .flowEntry c.step true
  else if x = '-' ∧ endsWord c.second? then l.blockMark .blockSequenceStart .blockEntry .misplacedEntry
  else if x = '?' ∧ (l.inFlow ∨ endsWord c.second?) then
    l.blockMark .blockMappingStart .key .misplacedKey
  else if x = ':' ∧ (l.inFlow ∨ endsWord c.second?) then l.colon
  else if x = '*' then l.node fun d => (Mark.anchorName d.step).map fun y => (.alias y.1, y.2)
  else if x = '&' then l.node fun d => (Mark.anchorName d.step).map fun y => (.anchor y.1, y.2)
  else if x = '!' then l.node Mark.tag
  else if (x = '|' ∨ x = '>') ∧ ¬ l.inFlow then l.blockScalar (x == '>')
  else if x = '\'' ∨ x = '"' then l.quoted x
  else if startsPlain l.inFlow x c.second? then l.plain
  else .error (.malformed .foreignCharacter)

def step (l : Lexer) : Except Error Lexer :=
  l.advance.bind fun l =>
    match l.cursor.head? with
    | some x => (l.token x).bind checked
    | none => l.outermost fun c => .ok (.streamEnd, c)

/-- The number of tokens that no pending key holds back. -/
def settled (l : Lexer) : Nat :=
  let hold (n : Nat) (k : PendingKey) : Nat := if k.isStale l.cursor then n else min n k.position
  l.pending.foldl hold l.count

/-- Reads tokens up to the end of the text, or to the place where it breaks. -/
def run : Nat → Lexer → List Token
  | 0, l => l.output
  | fuel + 1, l =>
    match l.step with
    | .error cause => .broken cause :: l.output.drop (l.count - l.settled)
    | .ok m => if m.output.head? = some .streamEnd then m.output else run fuel m

def tokens (s : Stream) : List Token := ((start s).run (start s).limit).reverse

end Lexer
end Placement.Yaml
