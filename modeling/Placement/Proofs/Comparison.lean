import Placement.Proofs.Identity

/-!
# Comparisons

Nodes, shards and moves are compared field by field, so `<` is a strict total order of each of the three kinds, and
the relations that are made from `<` and equality are those of one linear order (`Entity.Linear`).  Values of
different kinds are never equal and never in any order (`Entity.compare_linear`).
-/

namespace Placement
set_option autoImplicit false

/-! ## Field by field -/

instance bytes_strictTotal : IsStrictTotalOrder (List UInt8) (· < ·) where

instance lex_strictTotal {α β : Type} (r : α → α → Prop) (s : β → β → Prop) [IsStrictTotalOrder α r]
    [IsStrictTotalOrder β s] : IsStrictTotalOrder (α × β) (Prod.Lex r s) where

namespace Shard

/-- The fields of a shard in the order in which they are compared. -/
def key (s : Shard) : String × List UInt8 × List UInt8 × Int := (s.table, s.startKey, s.endKey, s.shardId)

theorem key_injective : Function.Injective key := by
  rintro ⟨t, k, e, i⟩ ⟨t', k', e', i'⟩ h
  simpa [key] using h

theorem lex_key_iff {a b : Shard} :
    Prod.Lex (· < ·) (Prod.Lex (· < ·) (Prod.Lex (· < ·) (· < ·))) a.key b.key ↔ a < b := by
  simp only [Prod.lex_def, key, lt_def]

instance : IsStrictTotalOrder Shard (· < ·) :=
  RelEmbedding.isStrictTotalOrder ⟨⟨key, key_injective⟩, lex_key_iff⟩

end Shard

namespace MovePlan

def key (p : MovePlan) : Shard × Node × Node := (p.shard, p.source, p.destination)

theorem key_injective : Function.Injective key := by
  rintro ⟨s, n, m, _⟩ ⟨s', n', m', _⟩ h
  simpa [key] using h

theorem lex_key_iff {a b : MovePlan} :
    Prod.Lex (· < ·) (Prod.Lex (· < ·) (· < ·)) a.key b.key ↔ a < b := by
  simp only [Prod.lex_def, key, lt_def]

instance : IsStrictTotalOrder MovePlan (· < ·) :=
  RelEmbedding.isStrictTotalOrder ⟨⟨key, key_injective⟩, lex_key_iff⟩

end MovePlan

/-! ## Relations made from one -/

namespace Relation
variable {α : Type} [LT α] [DecidableLT α] [DecidableEq α]

theorem holds_lt_iff (a b : α) : lt.holds a b = true ↔ a < b := decide_eq_true_iff

theorem holds_le_eq (a b : α) : le.holds a b = (lt.holds a b || decide (a = b)) := rfl

variable [IsStrictTotalOrder α (· < ·)]

theorem holds_gt_iff (a b : α) : gt.holds a b = true ↔ b < a := by
  simp only [holds, Bool.and_eq_true, Bool.not_eq_true', decide_eq_false_iff_not, decide_eq_true_eq]
  constructor
  · rintro ⟨hlt, hne⟩
    exact ((trichotomous_of (· < ·) a b).resolve_left hlt).resolve_left hne
  · exact fun hgt => ⟨asymm hgt, (ne_of_irrefl hgt).symm⟩

theorem holds_ge_iff (a b : α) : ge.holds a b = true ↔ b < a ∨ b = a := by
  simp only [holds, Bool.not_eq_true', decide_eq_false_iff_not]
  constructor
  · intro hlt
    rw [or_comm, eq_comm]
    exact (trichotomous_of (· < ·) a b).resolve_left hlt
  · rintro (hgt | rfl)
    · exact asymm hgt
    · exact irrefl b

theorem holds_gt_eq (a b : α) : gt.holds a b = lt.holds b a := by
  rw [Bool.eq_iff_iff, holds_gt_iff, holds_lt_iff]

theorem holds_ge_eq (a b : α) : ge.holds a b = le.holds b a := by
  rw [Bool.eq_iff_iff, holds_ge_iff, holds_le_eq, Bool.or_eq_true, holds_lt_iff, decide_eq_true_eq]

end Relation

/-! ## Entities -/

namespace Entity

/-- The comparisons of one kind of values are those of a linear order: they are all answered, of two values exactly one
is less or both are equal, and the other relations are made from these two. -/
structure Linear {α : Type} (inj : α → Entity) : Prop where
  trichotomy : ∀ x y,
    (compare .lt (inj x) (inj y) = .ok true ∧ same (inj x) (inj y) = false ∧ compare .lt (inj y) (inj x) = .ok false) ∨
    (compare .lt (inj x) (inj y) = .ok false ∧ same (inj x) (inj y) = true ∧ compare .lt (inj y) (inj x) = .ok false) ∨
    (compare .lt (inj x) (inj y) = .ok false ∧ same (inj x) (inj y) = false ∧ compare .lt (inj y) (inj x) = .ok true)
  trans : ∀ x y z, compare .lt (inj x) (inj y) = .ok true → compare .lt (inj y) (inj z) = .ok true →
    compare .lt (inj x) (inj z) = .ok true
  le : ∀ x y, compare .le (inj x) (inj y) = (compare .lt (inj x) (inj y)).map (· || same (inj x) (inj y))
  gt : ∀ x y, compare .gt (inj x) (inj y) = compare .lt (inj y) (inj x)
  ge : ∀ x y, compare .ge (inj x) (inj y) = compare .le (inj y) (inj x)

/-- Two values that are not equal and in no order. -/
structure Apart (x y : Entity) : Prop where
  unequal : same x y = false ∧ same y x = false
  refused : ∀ r, compare r x y = .error ⟨r, x.kind, y.kind⟩ ∧ compare r y x = .error ⟨r, y.kind, x.kind⟩

theorem linear_of_holds {α : Type} [LT α] [DecidableLT α] [DecidableEq α] [IsStrictTotalOrder α (· < ·)]
    {inj : α → Entity} (hcompare : ∀ r x y, compare r (inj x) (inj y) = .ok (r.holds x y))
    (hsame : ∀ x y, same (inj x) (inj y) = decide (x = y)) : Linear inj where
  trichotomy x y := by
    simp only [hcompare, hsame, Relation.holds, Except.ok.injEq, decide_eq_true_eq, decide_eq_false_iff_not]
    obtain hlt | heq | hgt := trichotomous_of (· < ·) x y
    · exact .inl ⟨hlt, ne_of_irrefl hlt, asymm hlt⟩
    · subst heq
      exact .inr (.inl ⟨irrefl x, rfl, irrefl x⟩)
    · exact .inr (.inr ⟨asymm hgt, (ne_of_irrefl hgt).symm, hgt⟩)
  trans x y z hxy hyz := by
    rw [hcompare, Except.ok.injEq, Relation.holds_lt_iff] at hxy hyz ⊢
    exact trans_of (· < ·) hxy hyz
  le x y := by
    rw [hcompare, hcompare, hsame, Relation.holds_le_eq]
    rfl
  gt x y := by rw [hcompare, hcompare, Relation.holds_gt_eq]
  ge x y := by rw [hcompare, hcompare, Relation.holds_ge_eq]

theorem linear_node : Linear .node := linear_of_holds (fun _ _ _ => rfl) fun _ _ => rfl

theorem linear_shard : Linear .shard := linear_of_holds (fun _ _ _ => rfl) fun _ _ => rfl

theorem linear_plan : Linear .plan := linear_of_holds (fun _ _ _ => rfl) fun _ _ => rfl

theorem apart_of_kinds (n : Node) (s : Shard) (p : MovePlan) :
    Apart (.node n) (.shard s) ∧ Apart (.node n) (.plan p) ∧ Apart (.shard s) (.plan p) :=
  ⟨⟨⟨rfl, rfl⟩, fun _ => ⟨rfl, rfl⟩⟩, ⟨⟨rfl, rfl⟩, fun _ => ⟨rfl, rfl⟩⟩, ⟨⟨rfl, rfl⟩, fun _ => ⟨rfl, rfl⟩⟩⟩

theorem compare_linear :
    Linear .node ∧ Linear .shard ∧ Linear .plan ∧
    (∀ a b, same (.node a) (.node b) = true ↔ a.host = b.host ∧ a.port = b.port ∧ a.startCode = b.startCode) ∧
    (∀ a b, same (.shard a) (.shard b) = true ↔
      a.table = b.table ∧ a.startKey = b.startKey ∧ a.endKey = b.endKey ∧ a.shardId = b.shardId) ∧
    (∀ a b, same (.plan a) (.plan b) = true ↔
      a.shard = b.shard ∧ a.source = b.source ∧ a.destination = b.destination) ∧
    ∀ n s p, Apart (.node n) (.shard s) ∧ Apart (.node n) (.plan p) ∧ Apart (.shard s) (.plan p) := by
  refine ⟨linear_node, linear_shard, linear_plan, fun a b => ?_, fun a b => ?_, fun a b => ?_, apart_of_kinds⟩
  · rw [same, decide_eq_true_eq, ← Node.key_injective.eq_iff]
    simp only [Node.key, toLex_inj, Prod.mk.injEq]
  · rw [same, decide_eq_true_eq, ← Shard.key_injective.eq_iff]
    simp only [Shard.key, Prod.mk.injEq]
  · rw [same, decide_eq_true_eq, ← MovePlan.key_injective.eq_iff]
    simp only [MovePlan.key, Prod.mk.injEq]

end Entity
end Placement
