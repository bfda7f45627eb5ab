import Mathlib
import Placement.Queue

/-!
# What a queue hands out

Up to their order the members of a queue are those that were put in and not taken out.  A queue that is built
by `Queue.push` and `Queue.pop?` stays heaped, so what `Queue.pop?` takes out is a member with the least key,
whatever order the members came in.
-/

namespace Placement
set_option autoImplicit false

namespace Queue
variable {α : Type} {before : α → α → Bool}

/-! ## Members -/

theorem toList_eq_nil_of_pop? {q : Queue α} (h : q.pop? before = none) : q.toList = [] := by
  cases q with
  | empty => rfl
  | node k x l r => simp [pop?] at h

theorem pop?_of_toList_eq_nil {q : Queue α} (h : q.toList = []) : q.pop? before = none := by
  cases q with
  | empty => rfl
  | node k x l r => simp [toList] at h

theorem perm_of_pop? {q rest : Queue α} {x : α} (h : q.pop? before = some (x, rest)) :
    q.toList.Perm (x :: rest.toList) := by
  cases q with
  | empty => simp [pop?] at h
  | node k y l r =>
    simp only [pop?, Option.some.injEq, Prod.mk.injEq] at h
    obtain ⟨rfl, rfl⟩ := h
    exact (toList_merge before l r).symm.cons y

theorem toList_ofList (before : α → α → Bool) (xs : List α) : (ofList before xs).toList.Perm xs := by
  induction xs with
  | nil => exact List.Perm.refl _
  | cons x xs ih => exact (toList_push before x _).trans (ih.cons x)

/-- A member that goes back only while it passes a test. -/
theorem toList_ite_push (before : α → α → Bool) {p : α → Bool} {rest : Queue α} {others : List α}
    (h : rest.toList.Perm (others.filter p)) (x : α) :
    (if p x then rest.push before x else rest).toList.Perm ((x :: others).filter p) := by
  by_cases hx : p x = true
  · rw [if_pos hx, List.filter_cons_of_pos hx]
    exact (toList_push before x rest).trans (h.cons x)
  · rw [if_neg hx, List.filter_cons_of_neg hx]
    exact h

/-! ## The least member -/

section Heap
variable {κ : Type} [LinearOrder κ] {key : α → κ}

/-- No member has a greater key than one below it. -/
def Heaped (key : α → κ) : Queue α → Prop
  | .empty => True
  | .node _ x l r => (∀ y ∈ l.toList ++ r.toList, key x ≤ key y) ∧ l.Heaped key ∧ r.Heaped key

theorem Heaped.branch {x : α} {a b : Queue α} (hx : ∀ y ∈ a.toList ++ b.toList, key x ≤ key y)
    (ha : a.Heaped key) (hb : b.Heaped key) : (branch x a b).Heaped key := by
  unfold Queue.branch
  split_ifs with h
  · exact ⟨hx, ha, hb⟩
  · refine ⟨fun y hy => hx y ?_, hb, ha⟩
    exact List.perm_append_comm.mem_iff.1 hy

theorem Heaped.merge (hkey : ∀ x y, before x y = true ↔ key x ≤ key y) {p q : Queue α} (hp : p.Heaped key)
    (hq : q.Heaped key) : (merge before p q).Heaped key := by
  fun_induction Queue.merge before p q with
  | case1 q => exact hq
  | case2 p _ => exact hp
  | case3 i x a b j y c d h ih =>
    obtain ⟨hx, ha, hb⟩ := hp
    refine Heaped.branch (fun z hz => ?_) ha (ih hb hq)
    rw [List.mem_append, (toList_merge before _ _).mem_iff, List.mem_append] at hz
    rcases hz with hz | hz | hz
    · exact hx z (List.mem_append_left _ hz)
    · exact hx z (List.mem_append_right _ hz)
    · have hxy := (hkey x y).1 h
      rcases List.mem_cons.1 hz with rfl | hz
      · exact hxy
      · exact hxy.trans (hq.1 z hz)
  | case4 i x a b j y c d h ih =>
    obtain ⟨hy, hc, hd⟩ := hq
    refine Heaped.branch (fun z hz => ?_) hc (ih hp hd)
    rw [List.mem_append, (toList_merge before _ _).mem_iff, List.mem_append] at hz
    rcases hz with hz | hz | hz
    · exact hy z (List.mem_append_left _ hz)
    · have hyx : key y ≤ key x := (not_le.1 (mt (hkey x y).2 h)).le
      rcases List.mem_cons.1 hz with rfl | hz
      · exact hyx
      · exact hyx.trans (hp.1 z hz)
    · exact hy z (List.mem_append_right _ hz)

theorem Heaped.push (hkey : ∀ x y, before x y = true ↔ key x ≤ key y) {q : Queue α} (hq : q.Heaped key)
    (x : α) : (q.push before x).Heaped key := by
  refine Heaped.merge hkey ⟨?_, trivial, trivial⟩ hq
  simp [toList]

theorem heaped_ofList (hkey : ∀ x y, before x y = true ↔ key x ≤ key y) (xs : List α) :
    (ofList before xs).Heaped key := by
  induction xs with
  | nil => trivial
  | cons x xs ih => exact ih.push hkey x

/-- The member that is taken out has the least key, and the others stay heaped. -/
theorem Heaped.pop? (hkey : ∀ x y, before x y = true ↔ key x ≤ key y) {q rest : Queue α} {x : α}
    (hq : q.Heaped key) (h : q.pop? before = some (x, rest)) :
    (∀ y ∈ q.toList, key x ≤ key y) ∧ rest.Heaped key := by
  cases q with
  | empty => simp [Queue.pop?] at h
  | node k top l r =>
    simp only [Queue.pop?, Option.some.injEq, Prod.mk.injEq] at h
    obtain ⟨rfl, rfl⟩ := h
    obtain ⟨htop, hl, hr⟩ := hq
    refine ⟨?_, hl.merge hkey hr⟩
    intro y hy
    rcases List.mem_cons.1 hy with rfl | hy
    · exact le_rfl
    · exact htop y hy

end Heap
end Queue
end Placement
