/-!
# Priority queues

`Queue α` is a leftist tree over an order that is handed to each operation as a test `before`.
`Queue.pop?` takes out the member at the root, which comes before all others when the queue was built
by `push` from the empty queue; `Queue.toList` is the view that every operation is described by.
-/

namespace Placement
set_option autoImplicit false

inductive Queue (α : Type) where
  | empty
  | node (rank : Nat) (top : α) (left right : Queue α)

namespace Queue
variable {α : Type}

def size : Queue α → Nat
  | .empty => 0
  | .node _ _ l r => l.size + r.size + 1

/-- The length of the right spine, as stored at the root. -/
def rank : Queue α → Nat
  | .empty => 0
  | .node k _ _ _ => k

/-- A node whose right side is the one with the shorter spine. -/
def branch (x : α) (a b : Queue α) : Queue α :=
  if b.rank ≤ a.rank then .node (b.rank + 1) x a b else .node (a.rank + 1) x b a

/-- Walks down both right spines, the earlier root on top. -/
def merge (before : α → α → Bool) : Queue α → Queue α → Queue α
  | .empty, q => q
  | p, .empty => p
  | .node i x a b, .node j y c d =>
    if before x y then branch x a (merge before b (.node j y c d))
    else branch y c (merge before (.node i x a b) d)
termination_by p q => p.size + q.size
decreasing_by all_goals simp only [size]; omega

def push (before : α → α → Bool) (x : α) (q : Queue α) : Queue α :=
  merge before (.node 1 x .empty .empty) q

def pop? (before : α → α → Bool) : Queue α → Option (α × Queue α)
  | .empty => none
  | .node _ x l r => some (x, merge before l r)

def ofList (before : α → α → Bool) (xs : List α) : Queue α :=
  xs.foldr (push before) .empty

/-! ## The view -/

/-- All members, a root before the members below it. -/
def toList : Queue α → List α
  | .empty => []
  | .node _ x l r => x :: (l.toList ++ r.toList)

theorem toList_branch (x : α) (a b : Queue α) :
    (branch x a b).toList.Perm (x :: (a.toList ++ b.toList)) := by
  unfold branch
  split
  · exact List.Perm.refl _
  · exact List.perm_append_comm.cons x

theorem toList_merge (before : α → α → Bool) (p q : Queue α) :
    (merge before p q).toList.Perm (p.toList ++ q.toList) := by
  fun_induction merge before p q with
  | case1 q => exact List.Perm.refl _
  | case2 p _ => simp [toList]
  | case3 i x a b j y c d h ih =>
    refine (toList_branch _ _ _).trans ?_
    simp only [toList, List.cons_append, List.append_assoc]
    exact (ih.append_left _).cons x
  | case4 i x a b j y c d h ih =>
    refine (toList_branch _ _ _).trans ?_
    refine (List.Perm.cons y (ih.append_left _)).trans ?_
    simp only [toList, List.cons_append, List.append_assoc]
    have gathered := (List.perm_append_comm_assoc c.toList a.toList (b.toList ++ d.toList)).trans
      ((List.perm_append_comm_assoc c.toList b.toList d.toList).append_left a.toList)
    refine ((List.perm_middle.trans (gathered.cons x)).cons y).trans ?_
    refine (List.Perm.swap x y _).trans (List.Perm.cons x ?_)
    refine List.perm_middle.symm.trans (List.Perm.append_left _ ?_)
    exact List.perm_middle.symm

theorem toList_push (before : α → α → Bool) (x : α) (q : Queue α) :
    (push before x q).toList.Perm (x :: q.toList) :=
  (toList_merge before _ q).trans (List.Perm.refl _)

end Queue
end Placement
