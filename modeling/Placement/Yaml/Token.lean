import Placement.Yaml.Error

/-!
# Tokens

A text is cut into tokens, the last of which is `streamEnd`, or `broken` at the place where no token can
be read.
-/

namespace Placement.Yaml
set_option autoImplicit false

inductive Token where
  | versionDirective (major : Nat)
  | tagDirective (handle uri : String)
  /-- A directive that is of no consequence. -/
  | otherDirective
  | documentStart
  | documentEnd
  | streamEnd
  | broken (cause : Error)
  | blockSequenceStart
  | blockMappingStart
  | blockEnd
  | flowSequenceStart
  | flowSequenceEnd
  | flowMappingStart
  | flowMappingEnd
  | flowEntry
  | blockEntry
  | key
  | value
  | alias (name : String)
  | anchor (name : String)
  /-- A tag is a handle with a suffix, or a suffix alone. -/
  | tag (handle : Option String) (suffix : String)
  | scalar (text : List Char) (plain : Bool)
deriving DecidableEq

def Token.isDirective : Token → Bool
  | .versionDirective _ | .tagDirective _ _ | .otherDirective => true
  | _ => false

/-- Whether there is no more of a document where a token stands. -/
def Token.endsDocument (t : Token) : Bool :=
  t.isDirective || [Token.documentStart, .documentEnd, .streamEnd].contains t

end Placement.Yaml
