/-!
# Lists in order

`Ordered.sorted` keeps repeated members, `Ordered.distinct` lists every member once; both are in
increasing order, so `distinct` depends on nothing but the set of members.
-/

namespace Placement.Ordered
set_option autoImplicit false

variable {α : Type}

/-- Puts a member at its place in an increasing list, unless the list has it already. -/
def enter [LT α] [DecidableLT α] [DecidableEq α] (x : α) : List α → List α
  | [] => [x]
  | y :: ys => if x < y then x :: y :: ys else if x = y then y :: ys else y :: enter x ys

def distinct [LT α] [DecidableLT α] [DecidableEq α] (xs : List α) : List α :=
  xs.foldr enter []

def sorted [LE α] [DecidableLE α] (xs : List α) : List α :=
  xs.mergeSort fun a b => decide (a ≤ b)

theorem mem_enter [LT α] [DecidableLT α] [DecidableEq α] (x y : α) (ys : List α) :
    y ∈ enter x ys ↔ y = x ∨ y ∈ ys := by
  induction ys with
  | nil => simp [enter]
  | cons z zs ih =>
    unfold enter
    split
    · simp
    · split
      · rename_i h
        simp [h]
      · simp only [List.mem_cons, ih]
        constructor <;> rintro (h | h | h) <;> simp [h]

theorem mem_distinct [LT α] [DecidableLT α] [DecidableEq α] (x : α) (xs : List α) :
    x ∈ distinct xs ↔ x ∈ xs := by
  induction xs with
  | nil => simp [distinct]
  | cons y ys ih =>
    have h := mem_enter y x (distinct ys)
    rw [ih] at h
    simpa [distinct] using h

end Placement.Ordered
