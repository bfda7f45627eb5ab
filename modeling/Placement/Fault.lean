import Placement.Node

/-!
# Faults of values

A `Fault` is what keeps a loosely typed value from being accepted in some place.  It has a short name, `Fault.code`,
and a wording, `Fault.message`.
-/

namespace Placement
set_option autoImplicit false

inductive Fault where
  | missing
  | notObject (model : String)
  | notText
  | textNotUtf8
  | notBytes
  | notInteger
  | integerSyntax
  | integerSize
  | fraction
  | notFinite
  | notNumber
  | numberSyntax
  | notBool
  | boolSyntax
  | belowZero
  | above (bound : Nat)
  | sameNode (node : Node)
deriving DecidableEq

namespace Fault

def code : Fault → String
  | .missing => "missing"
  | .notObject _ => "model_type"
  | .notText => "string_type"
  | .textNotUtf8 => "string_unicode"
  | .notBytes => "bytes_type"
  | .notInteger => "int_type"
  | .integerSyntax => "int_parsing"
  | .integerSize => "int_parsing_size"
  | .fraction => "int_from_float"
  | .notFinite => "finite_number"
  | .notNumber => "float_type"
  | .numberSyntax => "float_parsing"
  | .notBool => "bool_type"
  | .boolSyntax => "bool_parsing"
  | .belowZero => "greater_than_equal"
  | .above _ => "less_than_equal"
  | .sameNode _ => "value_error"

def message : Fault → String
  | .missing => "Field required"
  | .notObject model => "Input should be a valid dictionary or instance of " ++ model
  | .notText => "Input should be a valid string"
  | .textNotUtf8 => "Input should be a valid string, unable to parse raw data as a unicode string"
  | .notBytes => "Input should be a valid bytes"
  | .notInteger => "Input should be a valid integer"
  | .integerSyntax => "Input should be a valid integer, unable to parse string as an integer"
  | .integerSize => "Unable to parse input string as an integer, exceeded maximum size"
  | .fraction => "Input should be a valid integer, got a number with a fractional part"
  | .notFinite => "Input should be a finite number"
  | .notNumber => "Input should be a valid number"
  | .numberSyntax => "Input should be a valid number, unable to parse string as a number"
  | .notBool => "Input should be a valid boolean"
  | .boolSyntax => "Input should be a valid boolean, unable to interpret input"
  | .belowZero => "Input should be greater than or equal to 0"
  | .above bound => "Input should be less than or equal to " ++ Numeral.ofNat bound
  | .sameNode node =>
    "Value error, " ++
      match node.text with
      | .ok text => "source and destination are the same node: " ++ text
      | .error e => e.message

end Fault

end Placement
