import Mathlib
import Placement.MovePlan
import Placement.Ordered

/-!
# Identity orders

Nodes are ordered like the triples of their fields, so their order is linear.  Over a linear order
`Ordered.distinct` is strictly increasing: it lists every member once.  Sorting by a key of its own for every
member has one outcome (`Ordered.mergeSort_eq_of_perm`).
-/

namespace Placement
set_option autoImplicit false

/-! ## Nodes -/

namespace Node

theorem address_eq_iff (a b : Node) : a.address = b.address ↔ a.host = b.host ∧ a.port = b.port := by
  rw [address, address, Address.mk.injEq]

theorem eq_of_address {a b : Node} (haddress : a.address = b.address) (hcode : a.startCode = b.startCode) :
    a = b := by
  obtain ⟨hhost, hport⟩ := (address_eq_iff a b).1 haddress
  cases a
  cases b
  simp_all

/-- The fields of a node in the order in which they are compared. -/
def key (n : Node) : String ×ₗ Port ×ₗ Int := toLex (n.host, toLex (n.port, n.startCode))

theorem key_injective : Function.Injective key := by
  rintro ⟨h, p, c⟩ ⟨h', p', c'⟩ he
  simpa [key] using he

theorem lt_iff_key_lt (a b : Node) : a < b ↔ a.key < b.key := by
  simp only [lt_def, key, Prod.Lex.lt_iff, ofLex_toLex]

theorem le_iff_key_le (a b : Node) : a ≤ b ↔ a.key ≤ b.key := by
  rw [le_def, lt_iff_key_lt, le_iff_lt_or_eq, key_injective.eq_iff]

instance : LinearOrder Node where
  le_refl a := (le_iff_key_le a a).2 le_rfl
  le_trans a b c hab hbc := (le_iff_key_le a c).2
    (((le_iff_key_le a b).1 hab).trans ((le_iff_key_le b c).1 hbc))
  lt_iff_le_not_ge a b := by
    rw [lt_iff_key_lt, le_iff_key_le, le_iff_key_le]
    exact lt_iff_le_not_ge
  le_antisymm a b hab hba :=
    key_injective (((le_iff_key_le a b).1 hab).antisymm ((le_iff_key_le b a).1 hba))
  le_total a b := by
    rw [le_iff_key_le, le_iff_key_le]
    exact le_total a.key b.key
  toDecidableLE := inferInstance
  toDecidableEq := inferInstance
  toDecidableLT := inferInstance

end Node

/-! ## Distinct members in order -/

namespace Ordered
variable {α : Type} [LinearOrder α]

theorem enter_pairwise (x : α) {ys : List α} (h : ys.Pairwise (· < ·)) :
    (enter x ys).Pairwise (· < ·) := by
  induction ys with
  | nil => simp [enter]
  | cons y ys ih =>
    rw [List.pairwise_cons] at h
    unfold enter
    split_ifs with hlt heq
    · refine List.Pairwise.cons (fun z hz => ?_) (List.pairwise_cons.2 h)
      rcases List.mem_cons.1 hz with rfl | hz
      · exact hlt
      · exact hlt.trans (h.1 z hz)
    · exact List.pairwise_cons.2 h
    · have hgt : y < x := lt_of_le_of_ne (not_lt.1 hlt) (Ne.symm heq)
      refine List.Pairwise.cons (fun z hz => ?_) (ih h.2)
      rcases (mem_enter x z ys).1 hz with rfl | hz
      · exact hgt
      · exact h.1 z hz

theorem distinct_pairwise (xs : List α) : (distinct xs).Pairwise (· < ·) := by
  induction xs with
  | nil => exact List.Pairwise.nil
  | cons x xs ih => exact enter_pairwise x ih

theorem distinct_nodup (xs : List α) : (distinct xs).Nodup :=
  (distinct_pairwise xs).imp ne_of_lt

/-- A list without repetitions is only put in order. -/
theorem distinct_perm {xs : List α} (h : xs.Nodup) : (distinct xs).Perm xs :=
  (List.perm_ext_iff_of_nodup (distinct_nodup xs) h).2 fun x => mem_distinct x xs

/-- The order leaves no choice of how to list given members. -/
theorem distinct_eq {xs members : List α} (hsorted : members.Pairwise (· < ·))
    (hmem : ∀ x, x ∈ members ↔ x ∈ xs) : distinct xs = members := by
  have hperm : (distinct xs).Perm members := by
    rw [List.perm_ext_iff_of_nodup (distinct_nodup xs) (hsorted.imp ne_of_lt)]
    intro x
    rw [mem_distinct, hmem]
  exact hperm.eq_of_pairwise (fun x y _ _ hxy hyx => absurd hyx (lt_asymm hxy)) (distinct_pairwise xs) hsorted

/-! ## Sorting by a key -/

section
variable {β κ : Type} [LinearOrder κ] {le : β → β → Bool} {key : β → κ}

theorem mergeSort_pairwise (hle : ∀ a b, le a b = true ↔ key a ≤ key b) (xs : List β) :
    (xs.mergeSort le).Pairwise fun a b => le a b = true := by
  apply List.pairwise_mergeSort
  · intro a b c hab hbc
    rw [hle] at hab hbc ⊢
    exact hab.trans hbc
  · intro a b
    rw [Bool.or_eq_true, hle, hle]
    exact le_total _ _

/-- When no two members have one key, sorting forgets in which order they were given. -/
theorem mergeSort_eq_of_perm (hle : ∀ a b, le a b = true ↔ key a ≤ key b) (hkey : Function.Injective key)
    {xs ys : List β} (h : xs.Perm ys) : xs.mergeSort le = ys.mergeSort le := by
  have hperm := (List.mergeSort_perm xs le).trans (h.trans (List.mergeSort_perm ys le).symm)
  refine hperm.eq_of_pairwise (fun a b _ _ hab hba => ?_) (mergeSort_pairwise hle xs) (mergeSort_pairwise hle ys)
  exact hkey (((hle a b).1 hab).antisymm ((hle b a).1 hba))

end

end Ordered
end Placement
