import Placement.Numeral
import Placement.Yaml.Cursor
import Placement.Yaml.Error

/-!
# Texts of scalars

How plain, quoted and block scalars are read: where each of them ends, how its lines are folded and
what its escapes stand for.  A `limit` is a number that exceeds the length of the text, so that no loop runs out of it.
-/

namespace Placement.Yaml
set_option autoImplicit false

/-- Line breaks between two lines of a folded scalar: a single line feed becomes a space, and a first
line feed before others is dropped. -/
def foldBreaks (first : List Char) (others : List Char) : List Char :=
  if first != ['\n'] then first ++ others else if others.isEmpty then [' '] else others

/-! ## Plain scalars -/

namespace Plain

/-- Characters that end a plain scalar inside brackets. -/
def isFlowMark (c : Char) : Bool := [',', '?', '[', ']', '{', '}'].contains c

/-- What turns a colon before it into the end of a plain scalar. -/
def endsKey (inFlow : Bool) (next : Option Char) : Bool :=
  endsWord next || (inFlow && match next with
    | some c => [',', '[', ']', '{', '}'].contains c
    | none => false)

/-- The characters up to white space, to a colon that ends a key, or to a mark of brackets. -/
def run (inFlow : Bool) : List Char → List Char
  | [] => []
  | c :: cs =>
    if isSpaceOrTab c || isBreak c || (c == ':' && endsKey inFlow cs.head?) ||
        (inFlow && isFlowMark c) then []
    else c :: run inFlow cs

/-- Spaces and line breaks after a first line break; the flag tells that a document mark follows. -/
def breaks : Nat → Cursor → List Char × Bool × Cursor
  | 0, c => ([], false, c)
  | fuel + 1, c =>
    match c.head? with
    | none => ([], false, c)
    | some x =>
      if x == ' ' then breaks fuel c.step
      else if isBreak x then
        if c.step.atDocumentMark then ([], true, c.step)
        else
          let (more, atMark, d) := breaks fuel c.step
          (breakText x :: more, atMark, d)
      else ([], false, c)

/-- The white space after a run: what it stands for between two runs, whether it crosses a line end,
and the place behind it. -/
structure Gap where
  text : List Char
  crosses : Bool
  after : Cursor

def gap (limit : Nat) (c : Cursor) : Gap :=
  let spaces := c.rest.takeWhile (· == ' ')
  let d := c.skip spaces.length
  match d.takeBreak with
  | ([], _) => ⟨spaces, false, d⟩
  | (first, e) =>
    if e.atDocumentMark then ⟨[], true, e⟩
    else
      let (others, atMark, after) := breaks limit e
      ⟨if atMark then [] else foldBreaks first others, true, after⟩

/-- The text of a plain scalar, whether a line end was crossed behind its last run, and the place behind
it.  Outside brackets its lines are indented to at least `indent`. -/
def lines (limit : Nat) (inFlow : Bool) (indent : Int) : Nat → Cursor → List Char × Bool × Cursor
  | 0, c => ([], false, c)
  | fuel + 1, c =>
    let word := run inFlow c.rest
    let g := gap limit (c.skip word.length)
    let after := g.after
    if g.text.isEmpty || after.head? == some '#' || (!inFlow && decide ((after.column : Int) < indent)) ||
        (run inFlow after.rest).isEmpty then (word, g.crosses, after)
    else
      let (more, crosses, d) := lines limit inFlow indent fuel after
      (word ++ g.text ++ more, crosses, d)

def read (limit : Nat) (inFlow : Bool) (indent : Int) (c : Cursor) : List Char × Bool × Cursor :=
  lines limit inFlow indent limit c

end Plain

/-! ## Quoted scalars -/

namespace Quoted

def escapes : List (Char × Char) :=
  [('0', '\x00'), ('a', '\x07'), ('b', '\x08'), ('t', '\t'), ('\t', '\t'), ('n', '\n'), ('v', '\x0b'),
    ('f', '\x0c'), ('r', '\r'), ('e', '\x1b'), (' ', ' '), ('"', '"'), ('\\', '\\'), ('/', '/'),
    ('N', '\x85'), ('_', '\xa0'), ('L', '\u2028'), ('P', '\u2029')]

/-- The number of hexadecimal digits after the mark of an escape. -/
def escapeWidth? (c : Char) : Option Nat :=
  if c == 'x' then some 2 else if c == 'u' then some 4 else if c == 'U' then some 8 else none

/-- A code point; half of a surrogate pair has no character and becomes the replacement character. -/
def character (n : Nat) : Except Error Char :=
  if 0x7fffffff < n then .error (.scalar .beyondWord)
  else if 0x10ffff < n then .error (.scalar .beyondUnicode)
  else if 0xd800 ≤ n ∧ n ≤ 0xdfff then .ok '\ufffd'
  else .ok (Char.ofNat n)

def breaks : Nat → Cursor → Except Error (List Char × Cursor)
  | 0, c => .ok ([], c)
  | fuel + 1, c =>
    if c.atDocumentMark then .error (.malformed .markInQuote)
    else
      let d := c.skipWhile isSpaceOrTab
      match d.takeBreak with
      | ([], _) => .ok ([], d)
      | (first, e) => (breaks fuel e).map fun more => (first ++ more.1, more.2)

/-- What an escape stands for, beginning behind the backslash. -/
def escape (limit : Nat) (c : Cursor) : Except Error (List Char × Cursor) :=
  match c.head? with
  | none => .error (.malformed .escape)
  | some x =>
    match escapes.lookup x with
    | some y => .ok ([y], c.step)
    | none =>
      match escapeWidth? x with
      | some width =>
        let ds := c.step.rest.take width
        if ds.length < width then .error (.malformed .escape)
        else
          match Numeral.value? 16 ds with
          | none => .error (.malformed .escape)
          | some n => (character n).map fun y => ([y], c.step.skip width)
      | none =>
        if isBreak x then breaks limit c.step else .error (.malformed .escape)

/-- Characters up to white space or to the closing quote. -/
def run (limit : Nat) (quote : Char) : Nat → Cursor → Except Error (List Char × Cursor)
  | 0, c => .ok ([], c)
  | fuel + 1, c =>
    match c.head? with
    | none => .ok ([], c)
    | some x =>
      if isSpaceOrTab x || isBreak x then .ok ([], c)
      else if x == quote then
        if quote == '\'' && c.second? == some '\'' then
          (run limit quote fuel (c.skip 2)).map fun more => ('\'' :: more.1, more.2)
        else .ok ([], c)
      else if quote == '"' && x == '\\' then
        match escape limit c.step with
        | .error e => .error e
        | .ok (ys, d) => (run limit quote fuel d).map fun more => (ys ++ more.1, more.2)
      else (run limit quote fuel c.step).map fun more => (x :: more.1, more.2)

/-- White space inside a quoted scalar; at a line end it is folded. -/
def gap (limit : Nat) (c : Cursor) : Except Error (List Char × Cursor) :=
  let spaces := c.rest.takeWhile isSpaceOrTab
  let d := c.skip spaces.length
  match d.head? with
  | none => .error (.malformed .unclosedQuote)
  | some _ =>
    match d.takeBreak with
    | ([], _) => .ok (spaces, d)
    | (first, e) => (breaks limit e).map fun more => (foldBreaks first more.1, more.2)

/-- The lines up to the closing quote and the place behind it. -/
def lines (limit : Nat) (quote : Char) : Nat → Cursor → Except Error (List Char × Cursor)
  | 0, _ => .error (.malformed .unclosedQuote)
  | fuel + 1, c =>
    match run limit quote limit c with
    | .error e => .error e
    | .ok (word, d) =>
      if d.head? == some quote then .ok (word, d.step)
      else
        match gap limit d with
        | .error e => .error e
        | .ok (space, e) => (lines limit quote fuel e).map fun more => (word ++ space ++ more.1, more.2)

/-- The text of a quoted scalar, from behind its opening quote on, and the place behind it. -/
def read (limit : Nat) (quote : Char) (c : Cursor) : Except Error (List Char × Cursor) :=
  lines limit quote limit c

end Quoted

/-! ## Block scalars -/

/-- What becomes of the line breaks at the end of a block scalar. -/
inductive Chomping where
  | strip | clip | keep
deriving DecidableEq

namespace Block

structure Header where
  chomping : Chomping
  /-- The indentation relative to the parent, if it is given. -/
  increment : Option Nat

def chompingOf? (c : Option Char) : Option Chomping :=
  if c == some '+' then some .keep else if c == some '-' then some .strip else none

def digitOf? (c : Option Char) : Option Nat := c.bind (Numeral.digitIn? 10)

/-- The indicators of a block scalar, in either order; an indentation of zero is refused. -/
def header (c : Cursor) : Except Error (Header × Cursor) :=
  let finish (h : Header) (d : Cursor) : Except Error (Header × Cursor) :=
    if h.increment = some 0 ∨ ¬ endsField d.head? then .error (.malformed .blockHeader) else .ok (h, d)
  match chompingOf? c.head?, digitOf? c.head? with
  | some chomping, _ =>
    match digitOf? c.step.head? with
    | some n => finish ⟨chomping, some n⟩ c.step.step
    | none => finish ⟨chomping, none⟩ c.step
  | none, some n =>
    match chompingOf? c.step.head? with
    | some chomping => finish ⟨chomping, some n⟩ c.step.step
    | none => finish ⟨.clip, some n⟩ c.step
  | none, none => finish ⟨.clip, none⟩ c

/-- Empty lines of a scalar with a known indentation. -/
def breaks (indent : Nat) : Nat → Cursor → List Char × Cursor
  | 0, c => ([], c.skipSpacesTo indent)
  | fuel + 1, c =>
    let d := c.skipSpacesTo indent
    match d.takeBreak with
    | ([], _) => ([], d)
    | (first, e) =>
      let (more, f) := breaks indent fuel e
      (first ++ more, f)

/-- Empty lines at the start of a scalar and the greatest column that their spaces reach. -/
def leading : Nat → Nat → Cursor → List Char × Nat × Cursor
  | 0, widest, c => ([], widest, c)
  | fuel + 1, widest, c =>
    match c.head? with
    | none => ([], widest, c)
    | some x =>
      if x == ' ' then leading fuel (max widest c.step.column) c.step
      else if isBreak x then
        let (more, w, d) := leading fuel widest c.step
        (breakText x :: more, w, d)
      else ([], widest, c)

/-- The lines of a scalar: their text without the breaks at the end, the break of the last line and the
empty lines behind it. -/
structure Lines where
  text : List Char
  lastBreak : List Char
  trailing : List Char
  after : Cursor

def atLine (indent : Nat) (c : Cursor) : Bool := c.column == indent && c.head?.isSome

def isIndented (c : Cursor) : Bool :=
  match c.head? with
  | some x => isSpaceOrTab x
  | none => false

def lines (limit : Nat) (folded : Bool) (indent : Nat) : Nat → List Char → Cursor → Lines
  | 0, before, c => ⟨[], [], before, c⟩
  | fuel + 1, before, c =>
    if atLine indent c then
      let line := c.rest.takeWhile (!isBreak ·)
      let (lineBreak, d) := (c.skip line.length).takeBreak
      let (others, e) := breaks indent limit d
      if atLine indent e then
        let glue :=
          if folded && lineBreak == ['\n'] && !isIndented c && !isIndented e then
            if others.isEmpty then [' '] else []
          else lineBreak
        let more := lines limit folded indent fuel others e
        ⟨before ++ line ++ glue ++ more.text, more.lastBreak, more.trailing, more.after⟩
      else ⟨before ++ line, lineBreak, others, e⟩
    else ⟨[], [], before, c⟩

/-- The text of a block scalar, from behind its mark on; `parent` is the indentation around it. -/
def read (limit : Nat) (folded : Bool) (parent : Int) (c : Cursor) : Except Error (List Char × Cursor) :=
  match header c with
  | .error e => .error e
  | .ok (h, d) =>
    match d.restOfLine? with
    | none => .error (.malformed .blockHeader)
    | some e =>
      let least := max 1 (parent + 1).toNat
      let (before, indent, f) : List Char × Nat × Cursor :=
        match h.increment with
        | some n =>
          let (bs, f) := breaks (least + n - 1) limit e
          (bs, least + n - 1, f)
        | none =>
          let (bs, widest, f) := leading limit 0 e
          (bs, max least widest, f)
      let ls := lines limit folded indent limit before f
      let ending := match h.chomping with
        | .strip => []
        | .clip => ls.lastBreak
        | .keep => ls.lastBreak ++ ls.trailing
      .ok (ls.text ++ ending, ls.after)

end Block
end Placement.Yaml
