import Placement.Proofs.Pairing

/-!
# Pairing by scans

Taking the front of a queue is the same as scanning all nodes above or below their targets, because a node
stands in a queue once and with its current load.  So the pairing loop makes the moves of `Planner.scan`, and
the order in which the standings are listed makes no difference to it (`Planner.movesFor_eq_scan`).
-/

namespace Placement
set_option autoImplicit false

namespace Standing

def heavierKey (s : Standing) : Int ×ₗ Node := toLex (-s.load, s.node)

def lighterKey (s : Standing) : Int ×ₗ Node := toLex (s.load, s.node)

theorem heavierFirst_iff (a b : Standing) : a.heavierFirst b = true ↔ a.heavierKey ≤ b.heavierKey := by
  simp [heavierFirst, heavierKey, Prod.Lex.le_iff]

theorem lighterFirst_iff (a b : Standing) : a.lighterFirst b = true ↔ a.lighterKey ≤ b.lighterKey := by
  simp [lighterFirst, lighterKey, Prod.Lex.le_iff]

theorem node_eq_of_heavierKey {a b : Standing} (h : a.heavierKey = b.heavierKey) : a.node = b.node := by
  simp only [heavierKey, toLex_inj, Prod.mk.injEq] at h
  exact h.2

theorem node_eq_of_lighterKey {a b : Standing} (h : a.lighterKey = b.lighterKey) : a.node = b.node := by
  simp only [lighterKey, toLex_inj, Prod.mk.injEq] at h
  exact h.2

end Standing

namespace Planner

/-! ## The first of some standings -/

section First
variable {before : Standing → Standing → Bool} {κ : Type} [LinearOrder κ] {key : Standing → κ}

theorem first?_eq_none_iff (before : Standing → Standing → Bool) (all : List Standing) :
    first? before all = none ↔ all = [] := by
  cases all with
  | nil => simp [first?]
  | cons s others =>
    simp only [first?, reduceCtorEq, iff_false]
    split
    · simp
    · split_ifs <;> simp

theorem mem_of_first? (hkey : ∀ a b, before a b = true ↔ key a ≤ key b) {all : List Standing} {s : Standing}
    (h : first? before all = some s) : s ∈ all ∧ ∀ t ∈ all, key s ≤ key t := by
  induction all generalizing s with
  | nil => cases h
  | cons head others ih =>
    rw [first?] at h
    cases hothers : first? before others with
    | none =>
      rw [hothers] at h
      cases h
      rw [(first?_eq_none_iff before others).1 hothers]
      simp
    | some t =>
      obtain ⟨hmem, hle⟩ := ih hothers
      rw [hothers] at h
      simp only [hkey] at h
      split_ifs at h with hhead
      · cases h
        exact ⟨List.mem_cons_self, List.forall_mem_cons.2 ⟨le_rfl, fun u hu => hhead.trans (hle u hu)⟩⟩
      · cases h
        exact ⟨List.mem_cons_of_mem _ hmem, List.forall_mem_cons.2 ⟨(not_le.1 hhead).le, hle⟩⟩

/-- The front of a queue is what a scan of its members finds, in whatever order they are listed. -/
theorem first?_eq_pop? (hkey : ∀ a b, before a b = true ↔ key a ≤ key b)
    (hnode : ∀ {a b}, key a = key b → a.node = b.node) {queue : Queue Standing} (hqueue : queue.Heaped key)
    {members : List Standing} (hperm : queue.toList.Perm members) (hnodup : (members.map Standing.node).Nodup) :
    first? before members = (queue.pop? before).map Prod.fst := by
  cases hpop : queue.pop? before with
  | none =>
    rw [Queue.toList_eq_nil_of_pop? hpop, List.nil_perm] at hperm
    rw [hperm]
    rfl
  | some popped =>
    obtain ⟨front, rest⟩ := popped
    obtain ⟨hleast, -⟩ := hqueue.pop? hkey hpop
    have hfront := hperm.mem_iff.1 ((Queue.perm_of_pop? hpop).mem_iff.2 List.mem_cons_self)
    cases hfirst : first? before members with
    | none =>
      rw [(first?_eq_none_iff before members).1 hfirst] at hfront
      cases hfront
    | some s =>
      obtain ⟨hmem, hle⟩ := mem_of_first? hkey hfirst
      have hsame := hnode ((hle front hfront).antisymm (hleast s (hperm.mem_iff.2 hmem)))
      exact congrArg some (List.inj_on_of_nodup_map hnodup hmem hfront hsame)

end First

/-! ## Scans and queues -/

theorem update_cons (s t : Standing) (others : List Standing) :
    update s (t :: others) = (if t.node = s.node then s else t) :: update s others := rfl

theorem update_of_notMem {s : Standing} {others : List Standing} (h : s.node ∉ others.map Standing.node) :
    update s others = others := by
  refine (List.map_congr_left fun t ht => if_neg ?_).trans (List.map_id others)
  intro he
  exact h (he ▸ List.mem_map_of_mem ht)

theorem update_perm {source destination : Standing} {others all : List Standing}
    (hall : all.Perm (source :: destination :: others))
    (hnodup : ((source :: destination :: others).map Standing.node).Nodup) (rest : List Shard) :
    (update destination.take (update (source.give rest) all)).Perm
      (source.give rest :: destination.take :: others) := by
  simp only [List.map_cons, List.nodup_cons, List.mem_cons, not_or] at hnodup
  obtain ⟨⟨hne, hsource⟩, hdestination, -⟩ := hnodup
  have hgive : update (source.give rest) (source :: destination :: others) =
      source.give rest :: destination :: others := by
    have hother : destination.node ≠ (source.give rest).node := Ne.symm hne
    have hsource' : (source.give rest).node ∉ others.map Standing.node := hsource
    rw [update_cons, update_cons, if_neg hother, update_of_notMem hsource']
    exact congrArg (· :: _) (if_pos rfl)
  have htake : update destination.take (source.give rest :: destination :: others) =
      source.give rest :: destination.take :: others := by
    have hother : (source.give rest).node ≠ destination.take.node := hne
    have hdestination' : destination.take.node ∉ others.map Standing.node := hdestination
    rw [update_cons, update_cons, if_neg hother, update_of_notMem hdestination']
    exact congrArg (fun first => _ :: first :: _) (if_pos rfl)
  have hfirst : (update (source.give rest) all).Perm (source.give rest :: destination :: others) :=
    hgive ▸ hall.map _
  exact htake ▸ hfirst.map _

theorem pairUp_eq_scan (loud : Bool) (fuel : Nat) {above below : Queue Standing} {all : List Standing}
    (hnodup : (all.map Standing.node).Nodup) (hheapA : above.Heaped Standing.heavierKey)
    (hheapB : below.Heaped Standing.lighterKey) (habove : above.toList.Perm (all.filter Standing.isAbove))
    (hbelow : below.toList.Perm (all.filter Standing.isBelow)) :
    (pairUp loud fuel above below).result = scan fuel all := by
  induction fuel generalizing above below all with
  | zero => rfl
  | succ fuel ih =>
    have hfirstA := first?_eq_pop? Standing.heavierFirst_iff Standing.node_eq_of_heavierKey hheapA habove
      (hnodup.sublist ((List.filter_sublist).map _))
    have hfirstB := first?_eq_pop? Standing.lighterFirst_iff Standing.node_eq_of_lighterKey hheapB hbelow
      (hnodup.sublist ((List.filter_sublist).map _))
    rw [pairUp, scan, hfirstA, hfirstB]
    cases hpopA : above.pop? Standing.heavierFirst with
    | none => rfl
    | some popped =>
      obtain ⟨source, above'⟩ := popped
      cases hpopB : below.pop? Standing.lighterFirst with
      | none => rfl
      | some popped =>
        obtain ⟨destination, below'⟩ := popped
        simp only [Option.map_some]
        cases hmove : nextMove source destination with
        | error e => rfl
        | ok moved =>
          obtain ⟨plan, rest⟩ := moved
          -- The two ends of the move are replaced in the list, and in the queues if they go back there.
          obtain ⟨others, hall, ha, hb, hrestA, hrestB⟩ := exists_others habove hbelow hpopA hpopB
          have hnodup' := (hall.map Standing.node).nodup_iff.1 hnodup
          have hupdate := update_perm hall hnodup' rest
          have hstepA := (hheapA.pop? Standing.heavierFirst_iff hpopA).2
          have hstepB := (hheapB.pop? Standing.lighterFirst_iff hpopB).2
          simp only [andThen]
          rw [ih ((hupdate.map Standing.node).nodup_iff.2 hnodup')
            (by split_ifs; exacts [hstepA.push Standing.heavierFirst_iff _, hstepA])
            (by split_ifs; exacts [hstepB.push Standing.lighterFirst_iff _, hstepB])
            ((toList_above_after hb hrestA rest).trans (hupdate.filter _).symm)
            ((toList_below_after ha hrestB rest).trans (hupdate.filter _).symm)]

theorem movesFor_eq_scan (loud : Bool) {listed all : List Standing} (hperm : listed.Perm all)
    (hnodup : (all.map Standing.node).Nodup) :
    (movesFor loud listed).result = scan ((all.map Standing.surplus).sum) all := by
  have hfuel : (listed.filter Standing.isAbove).foldl (fun n s => n + s.surplus) 0 =
      (all.map Standing.surplus).sum := by
    rw [← (hperm.map Standing.surplus).sum_eq, ← sum_filter_of_pos Standing.isAbove_iff, List.sum_eq_foldl,
      List.foldl_map]
  rw [movesFor, hfuel]
  exact pairUp_eq_scan loud _ hnodup (Queue.heaped_ofList Standing.heavierFirst_iff _)
    (Queue.heaped_ofList Standing.lighterFirst_iff _)
    ((Queue.toList_ofList _ _).trans (hperm.filter _)) ((Queue.toList_ofList _ _).trans (hperm.filter _))

end Planner
end Placement
