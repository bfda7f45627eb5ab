import Placement.Node
import Placement.Shard

/-!
# Moves

A `MovePlan` asks for one shard to go from its source to a different node.  `Entity.compare` orders
two values of the three kinds `Node`, `Shard` and `MovePlan`, or refuses when their kinds differ.
-/

namespace Placement
set_option autoImplicit false

structure MovePlan where
  shard : Shard
  source : Node
  destination : Node
  distinct : source ≠ destination
deriving DecidableEq

namespace MovePlan

def text (p : MovePlan) : Except RangeError String := do
  let shard ← p.shard.text
  let source ← p.source.text
  let destination ← p.destination.text
  pure (shard ++ " " ++ source ++ " -> " ++ destination)

def reversed (p : MovePlan) : MovePlan := ⟨p.shard, p.destination, p.source, p.distinct.symm⟩

instance : LT MovePlan where
  lt a b := a.shard < b.shard ∨ a.shard = b.shard ∧
    (a.source < b.source ∨ a.source = b.source ∧ a.destination < b.destination)

instance : LE MovePlan where
  le a b := a < b ∨ a = b

theorem lt_def (a b : MovePlan) : a < b ↔ a.shard < b.shard ∨ a.shard = b.shard ∧
    (a.source < b.source ∨ a.source = b.source ∧ a.destination < b.destination) := Iff.rfl

theorem le_def (a b : MovePlan) : a ≤ b ↔ a < b ∨ a = b := Iff.rfl

instance : DecidableLT MovePlan := fun a b => decidable_of_iff _ (lt_def a b).symm

instance : DecidableLE MovePlan := fun a b => decidable_of_iff _ (le_def a b).symm

end MovePlan

/-! ## Comparing values of any kind -/

/-- A value that may stand on either side of a comparison; `foreign` is any other value, known only
by the name of its kind. -/
inductive Entity where
  | node (n : Node)
  | shard (s : Shard)
  | plan (p : MovePlan)
  | foreign (kind : String)
deriving DecidableEq

inductive Relation where
  | lt | le | gt | ge
deriving DecidableEq

/-- An order was asked of two values that have none. -/
structure Incomparable where
  relation : Relation
  left : String
  right : String
deriving DecidableEq

namespace Relation

def symbol : Relation → String
  | .lt => "<"
  | .le => "<="
  | .gt => ">"
  | .ge => ">="

/-- Only `<` is asked of the order; the other relations follow from it and from equality. -/
def holds {α : Type} [LT α] [DecidableLT α] [DecidableEq α] (r : Relation) (a b : α) : Bool :=
  match r with
  | .lt => decide (a < b)
  | .le => decide (a < b) || decide (a = b)
  | .gt => !decide (a < b) && decide (a ≠ b)
  | .ge => !decide (a < b)

end Relation

namespace Entity

def kind : Entity → String
  | .node _ => "Node"
  | .shard _ => "Shard"
  | .plan _ => "MovePlan"
  | .foreign kind => kind

/-- Equal values have one kind; a foreign value equals none of the three. -/
def same : Entity → Entity → Bool
  | .node a, .node b => decide (a = b)
  | .shard a, .shard b => decide (a = b)
  | .plan a, .plan b => decide (a = b)
  | _, _ => false

def compare (r : Relation) : Entity → Entity → Except Incomparable Bool
  | .node a, .node b => .ok (r.holds a b)
  | .shard a, .shard b => .ok (r.holds a b)
  | .plan a, .plan b => .ok (r.holds a b)
  | a, b => .error ⟨r, a.kind, b.kind⟩

end Entity

def Incomparable.message (e : Incomparable) : String :=
  "'" ++ e.relation.symbol ++ "' not supported between instances of '" ++ e.left ++ "' and '" ++
    e.right ++ "'"

end Placement
