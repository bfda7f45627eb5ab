import Placement.Numeral

/-!
# Cluster members

A `Node` is one run of a process that can host shards: its `Address` (host and port) together with a
start code that tells restarts of one address apart.  All three fields make up its identity and, in
this order, its place among the nodes.
-/

namespace Placement
set_option autoImplicit false

abbrev Port : Type := Fin 65536

structure Address where
  host : String
  port : Port
deriving DecidableEq

structure Node where
  host : String
  port : Port
  startCode : Int
deriving DecidableEq

def Address.text (a : Address) : String := a.host ++ ":" ++ Numeral.ofNat a.port.val

namespace Node

def address (n : Node) : Address := ⟨n.host, n.port⟩

def text (n : Node) : Except RangeError String :=
  (Numeral.written n.startCode).map fun code => n.host ++ "," ++ Numeral.ofNat n.port.val ++ "," ++ code

/-! ## Identity order -/

/-- Hosts compare by code point, then ports, then start codes. -/
instance : LT Node where
  lt a b := a.host < b.host ∨ a.host = b.host ∧
    (a.port < b.port ∨ a.port = b.port ∧ a.startCode < b.startCode)

instance : LE Node where
  le a b := a < b ∨ a = b

theorem lt_def (a b : Node) : a < b ↔ a.host < b.host ∨ a.host = b.host ∧
    (a.port < b.port ∨ a.port = b.port ∧ a.startCode < b.startCode) := Iff.rfl

theorem le_def (a b : Node) : a ≤ b ↔ a < b ∨ a = b := Iff.rfl

instance : DecidableLT Node := fun a b => decidable_of_iff _ (lt_def a b).symm

instance : DecidableLE Node := fun a b => decidable_of_iff _ (le_def a b).symm

end Node
end Placement
