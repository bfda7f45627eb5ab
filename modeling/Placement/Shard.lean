import Placement.Numeral

/-!
# Shards

A `Shard` is a range of keys of a table that can be placed on a node.  The start key belongs to the
range and the end key does not; an empty key stands for the end of the table on its side.  The
`shardId` tells shards apart that were created over the same range.
-/

namespace Placement
set_option autoImplicit false

structure Shard where
  table : String
  startKey : List UInt8
  endKey : List UInt8
  shardId : Int
deriving DecidableEq

namespace Shard

def text (s : Shard) : Except RangeError String :=
  (Numeral.written s.shardId).map fun id => s.table ++ "," ++ Numeral.ofBytes s.startKey ++ "," ++ id

/-! ## Identity order -/

/-- Tables compare by code point, keys by unsigned byte, ids by value. -/
instance : LT Shard where
  lt a b := a.table < b.table ∨ a.table = b.table ∧
    (a.startKey < b.startKey ∨ a.startKey = b.startKey ∧
      (a.endKey < b.endKey ∨ a.endKey = b.endKey ∧ a.shardId < b.shardId))

instance : LE Shard where
  le a b := a < b ∨ a = b

theorem lt_def (a b : Shard) : a < b ↔ a.table < b.table ∨ a.table = b.table ∧
    (a.startKey < b.startKey ∨ a.startKey = b.startKey ∧
      (a.endKey < b.endKey ∨ a.endKey = b.endKey ∧ a.shardId < b.shardId)) := Iff.rfl

theorem le_def (a b : Shard) : a ≤ b ↔ a < b ∨ a = b := Iff.rfl

instance : DecidableLT Shard := fun a b => decidable_of_iff _ (lt_def a b).symm

instance : DecidableLE Shard := fun a b => decidable_of_iff _ (le_def a b).symm

end Shard
end Placement
