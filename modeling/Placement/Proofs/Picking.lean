import Placement.Balancer
import Placement.Proofs.ColdStart

/-!
# Random picks

A pick takes the member that stands at a drawn index when the nodes are in order (`RandomPick.pick_result`), so
it does not matter in which order they were listed.  Nothing is drawn for an empty list.  Two balancers of one
seed therefore give the same answers to the same calls (`Balancer.picks_reproducible`).
-/

namespace Placement
set_option autoImplicit false

theorem Ordered.sorted_eq_of_perm {α : Type} [LinearOrder α] {xs ys : List α} (h : xs.Perm ys) :
    sorted xs = sorted ys :=
  mergeSort_eq_of_perm (fun _ _ => decide_eq_true_iff) Function.injective_id h

namespace Twister

theorem drawBelow_lt {n : Nat} (hn : 0 < n) (bits fuel : Nat) (g : Twister) :
    (drawBelow n bits fuel g).1 < n := by
  induction fuel generalizing g with
  | zero => exact hn
  | succ fuel ih =>
    rw [drawBelow]
    simp only
    split_ifs with h
    · exact h
    · exact ih _

theorem below_lt {n : Nat} (hn : 0 < n) (g : Twister) : (g.below n).1 < n := drawBelow_lt hn _ _ g

end Twister

/-! ## One pick -/

namespace RandomPick
variable {nodes others : List Node}

theorem pick_eq_of_perm (h : nodes.Perm others) (g : Twister) : pick nodes g = pick others g := by
  rw [pick, pick, Ordered.sorted_eq_of_perm h]

theorem pick_nil (g : Twister) : pick [] g = (⟨none, [.nothingToPick]⟩, g) := by
  simp [pick, Ordered.sorted]

/-- The index is drawn for the number of listed nodes, repetitions included. -/
theorem pick_result (nodes : List Node) (g : Twister) :
    (pick nodes g).1.result = (Ordered.sorted nodes)[(g.below nodes.length).1]? := by
  have hlength : (Ordered.sorted nodes).length = nodes.length := List.length_mergeSort nodes
  rw [pick]
  cases hsorted : Ordered.sorted nodes with
  | nil => rfl
  | cons first rest =>
    rw [hsorted, List.length_cons] at hlength
    have hlt : (g.below nodes.length).1 < (first :: rest).length := by
      rw [List.length_cons, hlength]
      exact g.below_lt (by omega)
    simp only [hlength, Logged.silent, List.getD_eq_getElem?_getD, List.getElem?_eq_getElem hlt, Option.getD_some]

theorem mem_of_pick {g : Twister} {node : Node} (h : (pick nodes g).1.result = some node) : node ∈ nodes := by
  rw [pick_result] at h
  exact List.mem_mergeSort.1 (List.mem_of_getElem? h)

theorem pick_eq_none_iff (nodes : List Node) (g : Twister) : (pick nodes g).1.result = none ↔ nodes = [] := by
  have hlength : (Ordered.sorted nodes).length = nodes.length := List.length_mergeSort nodes
  rw [pick_result, List.getElem?_eq_none_iff, hlength]
  constructor
  · intro hle
    by_contra hne
    exact absurd (g.below_lt (List.length_pos_iff.2 hne)) (not_lt.2 hle)
  · rintro rfl
    exact Nat.zero_le _

end RandomPick

/-! ## Picks one after another -/

namespace Balancer

/-- The answers of a balancer to calls that follow each other. -/
def pickAll : Balancer → List (List Node) → List (Option Node)
  | _, [] => []
  | b, nodes :: calls => (b.pick nodes).1.result :: (b.pick nodes).2.pickAll calls

/-- The answer is one of the nodes, or none when there are none. -/
def Answers (nodes : List Node) (answer : Option Node) : Prop :=
  (∀ node, answer = some node → node ∈ nodes) ∧ (answer = none ↔ nodes = [])

variable {b other : Balancer} {calls others : List (List Node)}

theorem pickAll_eq_of_perm (hgenerator : b.generator = other.generator)
    (hcalls : List.Forall₂ List.Perm calls others) : b.pickAll calls = other.pickAll others := by
  induction hcalls generalizing b other with
  | nil => rfl
  | cons hperm _ ih =>
    have hpick := RandomPick.pick_eq_of_perm hperm b.generator
    rw [hgenerator] at hpick
    rw [pickAll, pickAll]
    congr 1
    · rw [pick, pick, hgenerator, hpick]
    · apply ih
      rw [pick, pick, hgenerator, hpick]

theorem forall₂_pickAll (b : Balancer) (calls : List (List Node)) :
    List.Forall₂ Answers calls (b.pickAll calls) := by
  induction calls generalizing b with
  | nil => exact .nil
  | cons nodes calls ih =>
    exact .cons ⟨fun node => RandomPick.mem_of_pick, RandomPick.pick_eq_none_iff nodes b.generator⟩ (ih _)

/-- A balancer is the same before and after a call without nodes. -/
theorem pick_nil (b : Balancer) : b.pick [] = (⟨none, [.nothingToPick]⟩, b) := by
  rw [pick, RandomPick.pick_nil]

/-- In a list of slots `none` stands for a further call without nodes. -/
theorem pickAll_slots (b : Balancer) (slots : List (Option (List Node))) :
    (slots.zip (b.pickAll (slots.map (·.getD [])))).filterMap (fun e => e.1.map fun _ => e.2) =
      b.pickAll slots.reduceOption := by
  induction slots generalizing b with
  | nil => rfl
  | cons slot slots ih =>
    cases slot with
    | none =>
      rw [List.map_cons, Option.getD_none, pickAll, pick_nil, List.reduceOption_cons_of_none]
      exact ih b
    | some nodes =>
      rw [List.map_cons, Option.getD_some, pickAll, List.reduceOption_cons_of_some, pickAll]
      exact congrArg _ (ih _)

theorem picks_reproducible (c c' : Config) (seed : Int) (hseed : c.randomSeed = some seed)
    (hseed' : c'.randomSeed = some seed) (entropy entropy' : Int) (calls others : List (List Node))
    (hcalls : List.Forall₂ List.Perm calls others) :
    (start c entropy).result.pickAll calls = (start c' entropy').result.pickAll others ∧
    List.Forall₂ Answers calls ((start c entropy).result.pickAll calls) ∧
    ∀ slots : List (Option (List Node)), slots.reduceOption = calls →
      (slots.zip ((start c entropy).result.pickAll (slots.map (·.getD [])))).filterMap
        (fun e => e.1.map fun _ => e.2) = (start c entropy).result.pickAll calls := by
  refine ⟨pickAll_eq_of_perm ?_ hcalls, forall₂_pickAll _ calls, ?_⟩
  · simp only [start, hseed, hseed', Option.getD_some]
  · rintro slots rfl
    exact pickAll_slots _ slots

open Retain (host)

/-- Some nodes, one of them listed twice, then no nodes, then two. -/
def roster : List (List Node) := [[host "b", host "a", host "b"], [], [host "c", host "a"]]

theorem picks_reproducible_roster :
    List.Forall₂ List.Perm roster (roster.map List.reverse) ∧
      (start { Config.standard with randomSeed := some 7 } 0).result.pickAll roster =
        (start { Config.standard with randomSeed := some 7, logPlans := true } 1).result.pickAll
          (roster.map List.reverse) ∧
      List.Forall₂ Answers roster
        ((start { Config.standard with randomSeed := some 7 } 0).result.pickAll roster) ∧
      (start { Config.standard with randomSeed := some 7 } 0).result.pickAll roster =
        ((start { Config.standard with randomSeed := some 7 } 0).result.pickAll ([] :: roster)).tail := by
  have hcalls : List.Forall₂ List.Perm roster (roster.map List.reverse) :=
    .cons (List.reverse_perm _).symm (.cons (List.reverse_perm _).symm (.cons (List.reverse_perm _).symm .nil))
  obtain ⟨hsame, hanswers, hslots⟩ := picks_reproducible { Config.standard with randomSeed := some 7 }
    { Config.standard with randomSeed := some 7, logPlans := true } 7 rfl rfl 0 1 roster _ hcalls
  exact ⟨hcalls, hsame, hanswers, (hslots (none :: roster.map some) rfl).symm⟩

end Balancer
end Placement
