import Placement.Validation
import Placement.Yaml.Document

/-!
# Configuration files

`Config.load` reads the tunables from a `Source`, or tells by a `LoadError` why they cannot be had.
`Config.fileText` is the content of a file that holds given tunables, if their seed can be written.
-/

namespace Placement
set_option autoImplicit false

/-! ## Errors -/

structure InvalidConfig where
  path : String
  reason : String
deriving DecidableEq

/-- An empty reason is left out. -/
def InvalidConfig.message (e : InvalidConfig) : String :=
  "Invalid balancer config at '" ++ e.path ++ "'." ++
    (if e.reason.isEmpty then "" else " Reason: " ++ e.reason)

inductive Obstacle where
  | missing
  | directory
deriving DecidableEq

inductive Unusable where
  | obstacle (o : Obstacle)
  | malformed (cause : Yaml.Malformed)
  | notMapping
  | rejected (r : Rejection)
deriving DecidableEq

/-- Bytes that are no text and scalars that stand for no value are told apart from unusable files. -/
inductive LoadError where
  | unusable (cause : Unusable)
  | notText
  | scalar (fault : Yaml.ScalarFault)
deriving DecidableEq

def Obstacle.message (path : String) : Obstacle → String
  | .missing => "[Errno 2] No such file or directory: '" ++ path ++ "'"
  | .directory => "[Errno 21] Is a directory: '" ++ path ++ "'"

/-- The reason that is given for causes with a fixed wording. -/
def Unusable.reason? (path : String) : Unusable → Option String
  | .obstacle o => some (o.message path)
  | .notMapping => some "top-level YAML value must be a mapping"
  | .malformed _ | .rejected _ => none

/-! ## Reading -/

/-- Where tunables come from: the standard ones, or a file with its content. -/
inductive Source where
  | standard
  | obstacle (o : Obstacle)
  | file (content : List UInt8)

namespace Config

/-- Tunables from the value of a document; absence, falsehood, zero and emptiness count as no entries. -/
def ofDocument (v : Value) : Except LoadError Config :=
  match if v.isFalsy then .mapping [] else v with
  | .mapping entries =>
    match ofValue (.mapping entries) with
    | .ok c => .ok c
    | .error r => .error (.unusable (.rejected r))
  | _ => .error (.unusable .notMapping)

def ofStream (budget : Nat) (s : Yaml.Stream) : Except LoadError Config :=
  match Yaml.Document.read budget s with
  | .ok v => ofDocument v
  | .error (.malformed cause) => .error (.unusable (.malformed cause))
  | .error (.scalar fault) => .error (.scalar fault)
  | .error .notText => .error .notText

/-- Tunables from a source, with calls nested as deep as `budget` in the reading of a file. -/
def load (budget : Nat) : Source → Except LoadError Config
  | .standard => .ok standard
  | .obstacle o => .error (.unusable (.obstacle o))
  | .file content => ofStream budget (.ofBytes content)

/-! ## Writing -/

/-- A point belongs in front of an exponent, so that the text is read as a number. -/
def withPoint (cs : List Char) : List Char :=
  if cs.contains '.' ∨ ¬ cs.contains 'e' then cs
  else cs.takeWhile (· != 'e') ++ ['.', '0'] ++ cs.dropWhile (· != 'e')

def slopText (c : Config) : String := String.ofList (withPoint c.slop.text.toList)

def seedText (c : Config) : Except RangeError String :=
  match c.randomSeed with
  | some seed => Numeral.written seed
  | none => .ok "null"

def logPlansText (c : Config) : String := if c.logPlans then "true" else "false"

def fileText (c : Config) : Except RangeError String :=
  c.seedText.map fun seed =>
    "slop: " ++ c.slopText ++ "\nrandom_seed: " ++ seed ++ "\nlog_plans: " ++ c.logPlansText ++ "\n"

end Config
end Placement
