import Placement.Numeral
import Placement.Text.Hidden

/-!
# What can be wrong with a document

`Malformed` lists the ways in which a text fails to be a single document of known tags.  `ScalarFault` tells of
numbers, dates and escapes that stand for nothing, and of nodes that are too deep to follow.  An `Error` is one of
both, or bytes that are no text.
-/

namespace Placement.Yaml
set_option autoImplicit false

inductive Malformed where
  /-- A character that no document may contain. -/
  | unprintable
  /-- A key without the colon that has to follow it. -/
  | unfinishedKey
  /-- A sequence entry, a key or a value where none may start. -/
  | misplacedEntry
  | misplacedKey
  | misplacedValue
  /-- A character that starts no token. -/
  | foreignCharacter
  | directive
  | anchor
  | tag
  | escape
  | unclosedQuote
  /-- A document mark inside a quoted scalar. -/
  | markInQuote
  | blockHeader
  /-- A closing bracket without an opening one. -/
  | unmatchedBracket
  | expectedContent
  | expectedBlockEnd
  | expectedComma
  | expectedDocument
  | undefinedHandle
  | undefinedAlias
  | duplicateAnchor
  | secondDocument
  /-- A tag that no value is known for. -/
  | unknownTag
  /-- A scalar, sequence or mapping whose tag is for another kind of node. -/
  | wrongKind
  /-- A list, a mapping or a set as a key. -/
  | unhashableKey
  /-- A merge key whose value is neither a mapping nor a sequence of mappings. -/
  | badMerge
  | badBase64
deriving DecidableEq

inductive ScalarFault where
  | noDigits
  | badInteger (base : Nat) (text : List Char)
  | tooManyDigits (count : Nat)
  | badNumber (text : List Char)
  /-- A power of sixty beyond the largest double. -/
  | tooLarge
  | noTruthValue (word : List Char)
  | noMoment
  /-- A collection where the text of a date is expected. -/
  | momentOfCollection
  | zeroYear
  | month
  | day
  | hour
  | minute
  | second
  /-- An offset of at least a day, as days and the seconds beyond them. -/
  | offset (days : Int) (seconds : Nat)
  /-- An escape for a character beyond the last code point. -/
  | beyondUnicode
  /-- An escape for a number that is not even a signed word of 32 bits. -/
  | beyondWord
  /-- Collections within one another too deep to follow, or a mapping that stands for itself. -/
  | tooDeep
deriving DecidableEq

inductive Error where
  | malformed (cause : Malformed)
  | scalar (fault : ScalarFault)
  /-- Bytes that are no text. -/
  | notText
deriving DecidableEq

/-! ## Messages -/

/-- The lowest hexadecimal digits of a number, most significant first. -/
def hexDigits : Nat → Nat → List Char
  | 0, _ => []
  | count + 1, n => hexDigits count (n / 16) ++ [Numeral.digitChar (n % 16)]

/-- One character of a quoted text. -/
def quotedChar (quote : Char) (c : Char) : List Char :=
  if c == quote || c == '\\' then ['\\', c]
  else if c == '\n' then ['\\', 'n']
  else if c == '\r' then ['\\', 'r']
  else if c == '\t' then ['\\', 't']
  else if Text.isHidden c then
    if c.toNat < 0x100 then '\\' :: 'x' :: hexDigits 2 c.toNat
    else if c.toNat < 0x10000 then '\\' :: 'u' :: hexDigits 4 c.toNat
    else '\\' :: 'U' :: hexDigits 8 c.toNat
  else [c]

/-- A text in single quotes, or in double ones if it holds single ones only. -/
def quoted (cs : List Char) : List Char :=
  let quote := if cs.contains '\'' && !cs.contains '"' then '"' else '\''
  quote :: cs.flatMap (quotedChar quote) ++ [quote]

/-- Of a quoted text that should have been an integer no more characters than this are shown. -/
def shownLimit : Nat := 200

namespace ScalarFault

def offsetText (days : Int) (seconds : Nat) : String :=
  let parts := (if days = 0 then [] else ["days=" ++ Numeral.ofInt days]) ++
    (if seconds = 0 then [] else ["seconds=" ++ Numeral.ofNat seconds])
  "datetime.timedelta(" ++ ", ".intercalate parts ++ ")"

def message : ScalarFault → String
  | .noDigits => "string index out of range"
  | .badInteger base text =>
    "invalid literal for int() with base " ++ Numeral.ofNat base ++ ": " ++
      String.ofList ((quoted text).take shownLimit)
  | .tooManyDigits count =>
    "Exceeds the limit (" ++ Numeral.ofNat Numeral.digitLimit ++
      " digits) for integer string conversion: value has " ++ Numeral.ofNat count ++
      " digits; use sys.set_int_max_str_digits() to increase the limit"
  | .badNumber text => "could not convert string to float: " ++ String.ofList (quoted text)
  | .tooLarge => "int too large to convert to float"
  | .noTruthValue word => String.ofList (quoted word)
  | .noMoment => "'NoneType' object has no attribute 'groupdict'"
  | .momentOfCollection => "expected string or bytes-like object, got 'list'"
  | .zeroYear => "year 0 is out of range"
  | .month => "month must be in 1..12"
  | .day => "day is out of range for month"
  | .hour => "hour must be in 0..23"
  | .minute => "minute must be in 0..59"
  | .second => "second must be in 0..59"
  | .offset days seconds =>
    "offset must be a timedelta strictly between -timedelta(hours=24) and timedelta(hours=24), not " ++
      offsetText days seconds ++ "."
  | .beyondUnicode => "chr() arg not in range(0x110000)"
  | .beyondWord => "Python int too large to convert to C int"
  | .tooDeep => "maximum recursion depth exceeded"

end ScalarFault
end Placement.Yaml
