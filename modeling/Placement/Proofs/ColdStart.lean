import Placement.Bulk
import Placement.Immediate
import Placement.Retain
import Placement.Proofs.LeastLoaded
import Placement.Proofs.Table

/-!
# Placement without history

Shards without history are placed alike by all three assigners: the nodes take turns in identity order.
`Bulk.assign` deals in turns by its definition, `Immediate.assign` and `Retain.assign` place on the least
loaded node, and for `Retain.assign` no history means that no address of a previous owner is left.
-/

namespace Placement
set_option autoImplicit false

/-! ## Three ways to place -/

section
variable {members nodes : List Node}

/-- Every shard with the member on turn. -/
def inTurns (members : List Node) (hpos : 0 < members.length) (shards : List Shard) : List (Shard × Node) :=
  shards.zipIdx.map fun e => (e.1, LeastLoaded.onTurn members hpos e.2)

theorem inTurns_shards (hpos : 0 < members.length) (shards : List Shard) :
    (inTurns members hpos shards).map Prod.fst = shards := by
  rw [inTurns, List.map_map]
  exact List.zipIdx_map_fst 0 shards

theorem getElem?_inTurns (hpos : 0 < members.length) {shards : List Shard} {j : Nat} {shard : Shard}
    (h : shards[j]? = some shard) :
    (inTurns members hpos shards)[j]? = some (shard, LeastLoaded.onTurn members hpos j) := by
  simp [inTurns, h]

theorem Immediate.assign_eq (hsorted : members.Pairwise (· < ·)) (hpos : 0 < members.length)
    (hmem : ∀ node, node ∈ members ↔ node ∈ nodes) (shards : List Shard) :
    (Immediate.assign shards nodes).result = Table.ofList (inTurns members hpos shards) := by
  have hmembers := Ordered.distinct_eq hsorted hmem
  cases shards with
  | nil => rfl
  | cons shard shards =>
    have hdeal := LeastLoaded.deal_in_turns hsorted hpos (List.Perm.refl _) (shard :: shards)
    simp only [assign, List.isEmpty_cons, Bool.false_eq_true, if_false, hmembers, hdeal]
    rfl

theorem Bulk.assign_eq (hsorted : members.Pairwise (· < ·)) (hpos : 0 < members.length)
    (hmem : ∀ node, node ∈ members ↔ node ∈ nodes) (shards : List Shard) :
    (Bulk.assign shards nodes).result =
      Table.grouped ((inTurns members hpos shards).map fun e => (e.2, e.1)) := by
  have hmembers := Ordered.distinct_eq hsorted hmem
  cases shards with
  | nil => rfl
  | cons shard shards =>
    cases members with
    | nil => simp at hpos
    | cons first others =>
      simp only [assign, List.isEmpty_cons, Bool.false_eq_true, if_false, hmembers, deal, inTurns, List.map_map]
      rfl

namespace Retain

theorem newest?_concat (nodes : List Node) (node : Node) (a : Address) :
    newest? (nodes ++ [node]) a =
      if node.address = a then
        match newest? nodes a with
        | some current => if current.startCode < node.startCode then some node else some current
        | none => some node
      else newest? nodes a := by
  simp only [newest?, List.foldl_append, List.foldl_cons, List.foldl_nil]
  split_ifs
  · split <;> simp_all
  · rfl

theorem newest?_eq_none_iff (nodes : List Node) (a : Address) :
    newest? nodes a = none ↔ ∀ node ∈ nodes, node.address ≠ a := by
  induction nodes using List.reverseRecOn with
  | nil => simp [newest?]
  | append_singleton nodes node ih =>
    rw [newest?_concat]
    by_cases haddress : node.address = a
    · have hsome : ¬ ∀ other ∈ nodes ++ [node], other.address ≠ a := fun h => h node (by simp) haddress
      rw [if_pos haddress]
      refine iff_of_false ?_ hsome
      split
      · split_ifs <;> simp
      · simp
    · rw [if_neg haddress, ih]
      simp [or_imp, forall_and, haddress]

/-- Where shards are dealt, the shortcut for an empty history makes no difference. -/
theorem assign_of_deal {previous : Table Shard (Option Node)} {placed : List (Shard × Node)}
    (hne : Ordered.distinct nodes ≠ [])
    (hdeal : LeastLoaded.deal (tallies (Ordered.distinct nodes) (kept (Ordered.distinct nodes) previous))
      (orphans (Ordered.distinct nodes) previous) = .ok placed) :
    (Retain.assign previous nodes).result =
      .grouped ((kept (Ordered.distinct nodes) previous ++ placed).map fun e => (e.2, e.1)) := by
  cases hempty : previous.isEmpty with
  | true =>
    have hentries : previous.entries = [] := List.isEmpty_iff.1 hempty
    simp only [orphans, hentries, LeastLoaded.deal] at hdeal
    cases hdeal
    simp only [assign, hempty, if_true, kept, hentries]
    rfl
  | false =>
    simp only [assign, hempty, List.isEmpty_eq_false_iff.2 hne, Bool.false_eq_true, if_false, hdeal]

/-- A previous owner counts for nothing when its address is gone. -/
def NoneReturns (previous : Table Shard (Option Node)) (nodes : List Node) : Prop :=
  ∀ e ∈ previous.entries, ∀ owner, e.2 = some owner → ∀ node ∈ nodes, node.address ≠ owner.address

theorem NoneReturns.home?_eq_none {previous : Table Shard (Option Node)} (h : NoneReturns previous nodes)
    (hmem : ∀ node, node ∈ members ↔ node ∈ nodes) {e : Shard × Option Node} (he : e ∈ previous.entries) :
    home? members e.2 = none := by
  cases howner : e.2 with
  | none => rfl
  | some owner =>
    rw [home?, Option.bind_some, newest?_eq_none_iff]
    intro node hnode
    exact h e he owner howner node ((hmem node).1 hnode)

theorem assign_eq (hsorted : members.Pairwise (· < ·)) (hpos : 0 < members.length)
    (hmem : ∀ node, node ∈ members ↔ node ∈ nodes) {previous : Table Shard (Option Node)}
    (h : NoneReturns previous nodes) :
    (Retain.assign previous nodes).result =
      Table.grouped ((inTurns members hpos previous.keys).map fun e => (e.2, e.1)) := by
  have hmembers := Ordered.distinct_eq hsorted hmem
  -- No shard stays where it was, so all of them are dealt and every tally begins at zero.
  have hkept : kept members previous = [] := by
    rw [kept, List.filterMap_eq_nil_iff]
    intro e he
    rw [h.home?_eq_none hmem he]
    rfl
  have horphans : orphans members previous = previous.keys := by
    rw [orphans, List.filter_eq_self.2, Table.keys]
    intro e he
    rw [h.home?_eq_none hmem he]
    rfl
  have htallies : tallies members [] = members.map fun node => ⟨0, node⟩ := by simp [tallies]
  have hdeal := LeastLoaded.deal_in_turns hsorted hpos (List.Perm.of_eq htallies) previous.keys
  have hne : Ordered.distinct nodes ≠ [] := hmembers ▸ List.ne_nil_of_length_pos hpos
  rw [assign_of_deal hne (by rw [hmembers, hkept, horphans]; exact hdeal), hmembers, hkept]
  rfl

end Retain

/-! ## Agreement -/

theorem Immediate.assign_nil (shards : List Shard) : (Immediate.assign shards []).result = .empty := by
  cases shards <;> rfl

theorem Bulk.assign_nil (shards : List Shard) : (Bulk.assign shards []).result = .empty := by
  cases shards <;> rfl

theorem Retain.assign_nil (previous : Table Shard (Option Node)) :
    (Retain.assign previous []).result = .empty := by
  cases h : previous.isEmpty <;> simp only [assign, h, Bool.false_eq_true, if_true, if_false] <;> rfl

theorem assigners_agree (shards : List Shard) (nodes members : List Node) (hsorted : members.Pairwise (· < ·))
    (hmem : ∀ node, node ∈ members ↔ node ∈ nodes) :
    (nodes ≠ [] →
      (Immediate.assign shards nodes).result.keys = shards.eraseDups ∧
      ∀ j shard, shards[j]? = some shard → shard ∉ shards.drop (j + 1) →
        ∃ node, members[j % members.length]? = some node ∧
          (Immediate.assign shards nodes).result.get? shard = some node) ∧
    (shards.Nodup →
      (Bulk.assign shards nodes).result =
        .grouped ((Immediate.assign shards nodes).result.entries.map fun e => (e.2, e.1)) ∧
      ∀ previous : Table Shard (Option Node), previous.keys = shards → Retain.NoneReturns previous nodes →
        (Retain.assign previous nodes).result = (Bulk.assign shards nodes).result) ∧
    (nodes = [] →
      (Immediate.assign shards nodes).result = .empty ∧ (Bulk.assign shards nodes).result = .empty ∧
      ∀ previous, (Retain.assign previous nodes).result = .empty) := by
  by_cases hnone : nodes = []
  · subst hnone
    refine ⟨fun hne => absurd rfl hne, fun _ => ?_, fun _ => ?_⟩
    · rw [Bulk.assign_nil, Immediate.assign_nil]
      exact ⟨rfl, fun previous _ _ => Retain.assign_nil previous⟩
    · exact ⟨Immediate.assign_nil shards, Bulk.assign_nil shards, Retain.assign_nil⟩
  · obtain ⟨node, hnode⟩ := List.exists_mem_of_ne_nil nodes hnone
    have hpos := List.length_pos_of_mem ((hmem node).2 hnode)
    refine ⟨fun _ => ?_, fun hnodup => ?_, fun hnil => absurd hnil hnone⟩
    · rw [Immediate.assign_eq hsorted hpos hmem, Table.keys_ofList, inTurns_shards]
      refine ⟨rfl, fun j shard hshard hlast => ⟨LeastLoaded.onTurn members hpos j, ?_, ?_⟩⟩
      · exact List.getElem?_eq_getElem _
      · apply Table.get?_ofList_of_last (getElem?_inTurns hpos hshard)
        rwa [List.map_drop, inTurns_shards]
    · have hshards := inTurns_shards hpos shards
      rw [Bulk.assign_eq hsorted hpos hmem, Immediate.assign_eq hsorted hpos hmem,
        Table.entries_ofList (hshards.symm ▸ hnodup)]
      refine ⟨rfl, ?_⟩
      rintro previous rfl hreturns
      exact Retain.assign_eq hsorted hpos hmem hreturns

end

def Retain.host (name : String) : Node := ⟨name, ⟨9100, by decide⟩, 1⟩

/-- Three shards, one of which was on a host that is gone. -/
def Retain.restarted : Table Shard (Option Node) :=
  .ofList [(⟨"t", [], [], 0⟩, none), (⟨"t", [], [], 1⟩, some (host "c")), (⟨"t", [], [], 2⟩, none)]

def Retain.survivors : List Node := [host "b", host "a", host "b"]

theorem assigners_agree_restarted :
    (Ordered.distinct Retain.survivors).Pairwise (· < ·) ∧ Retain.restarted.keys.Nodup ∧
      Retain.NoneReturns Retain.restarted Retain.survivors ∧
      (Immediate.assign Retain.restarted.keys Retain.survivors).result.get? ⟨"t", [], [], 1⟩ =
        some (Retain.host "b") ∧
      (Retain.assign Retain.restarted Retain.survivors).result =
        .grouped ((Immediate.assign Retain.restarted.keys Retain.survivors).result.entries.map
          fun e => (e.2, e.1)) := by
  have hsorted := Ordered.distinct_pairwise Retain.survivors
  have hnodup : Retain.restarted.keys.Nodup := Retain.restarted.keys_nodup
  have hreturns : Retain.NoneReturns Retain.restarted Retain.survivors := by
    have hgone : ∀ e ∈ Retain.restarted.entries, ∀ owner ∈ e.2, ∀ node ∈ Retain.survivors,
        node.address ≠ owner.address := by decide
    exact fun e he owner howner => hgone e he owner howner
  obtain ⟨hturns, hagree, -⟩ := assigners_agree Retain.restarted.keys Retain.survivors _ hsorted
    fun node => Ordered.mem_distinct node Retain.survivors
  obtain ⟨-, hlast⟩ := hturns (by decide)
  obtain ⟨node, hmember, howner⟩ := hlast 1 ⟨"t", [], [], 1⟩ (by decide) (by decide)
  obtain ⟨hbulk, hretain⟩ := hagree hnodup
  have hturn : (Ordered.distinct Retain.survivors)[1 % (Ordered.distinct Retain.survivors).length]? =
      some (Retain.host "b") := by decide
  have hnode : node = Retain.host "b" := Option.some.inj (hmember.symm.trans hturn)
  refine ⟨hsorted, hnodup, hreturns, hnode ▸ howner, ?_⟩
  rw [hretain Retain.restarted rfl hreturns, hbulk]

end Placement
