import Placement.Proofs.Rendering
import Placement.Snapshot

/-!
# Errors in words

A refused move or question is put into words on the spot.  The words show the ids of the nodes and of the shard that
are involved, so the refusal comes through as it is exactly if these can be written, and otherwise it gives way to the
error of the first id that cannot (`SnapshotError.raised_of_not_writable`).
-/

namespace Placement
set_option autoImplicit false

theorem Node.text_of_writable {n : Node} (h : Numeral.Writable n.startCode) : ∃ t, n.text = .ok t :=
  ⟨_, (n.text_eq_ok_iff _).2 ⟨h, rfl⟩⟩

theorem Shard.text_of_writable {s : Shard} (h : Numeral.Writable s.shardId) : ∃ t, s.text = .ok t :=
  ⟨_, (s.text_eq_ok_iff _).2 ⟨h, rfl⟩⟩

namespace SnapshotError

/-- All ids that an error shows have few enough digits. -/
def Writable : SnapshotError → Prop
  | .unknownNode node => Numeral.Writable node.startCode
  | .stalePlan plan owner =>
    Numeral.Writable plan.shard.shardId ∧ Numeral.Writable plan.source.startCode ∧
      ∀ node, owner = some node → Numeral.Writable node.startCode
  | .lostShard _ | .unworded _ => True

theorem message_of_writable {e : SnapshotError} (h : e.Writable) : ∃ text, e.message = .ok text := by
  cases e with
  | unknownNode node =>
    obtain ⟨t, ht⟩ := Node.text_of_writable h
    exact ⟨_, by rw [message, ht]; rfl⟩
  | stalePlan plan owner =>
    obtain ⟨hid, hcode, howner⟩ := h
    obtain ⟨shard, hshard⟩ := Shard.text_of_writable hid
    obtain ⟨source, hsource⟩ := Node.text_of_writable hcode
    cases owner with
    | none => exact ⟨_, by rw [message, hshard, hsource]; rfl⟩
    | some node =>
      obtain ⟨t, ht⟩ := Node.text_of_writable (howner node rfl)
      exact ⟨_, by simp only [message, hshard, hsource, ht]; rfl⟩
  | lostShard plan => exact ⟨_, rfl⟩
  | unworded cause => exact ⟨_, rfl⟩

theorem message_of_not_writable {e : SnapshotError} (h : ¬ e.Writable) : e.message = .error .digits := by
  cases e with
  | unknownNode node =>
    rw [message, Node.text_of_not_writable h]
    rfl
  | stalePlan plan owner =>
    -- The ids are written one after the other, and the first that cannot be is the error.
    by_cases hid : Numeral.Writable plan.shard.shardId
    · obtain ⟨shard, hshard⟩ := Shard.text_of_writable hid
      by_cases hcode : Numeral.Writable plan.source.startCode
      · obtain ⟨source, hsource⟩ := Node.text_of_writable hcode
        cases owner with
        | none => exact absurd ⟨hid, hcode, nofun⟩ h
        | some node =>
          have howner : ¬ Numeral.Writable node.startCode := fun hnode =>
            h ⟨hid, hcode, fun _ hsome => Option.some.inj hsome ▸ hnode⟩
          simp only [message, hshard, hsource, Node.text_of_not_writable howner]
          rfl
      · rw [message, hshard, Node.text_of_not_writable hcode]
        rfl
    · rw [message, Shard.text_of_not_writable hid]
      rfl
  | lostShard plan => exact absurd trivial h
  | unworded cause => exact absurd trivial h

theorem raised_of_writable {e : SnapshotError} (h : e.Writable) : e.raised = e := by
  obtain ⟨text, htext⟩ := message_of_writable h
  rw [raised, htext]

theorem raised_of_not_writable {e : SnapshotError} (h : ¬ e.Writable) : e.raised = .unworded .digits := by
  rw [raised, message_of_not_writable h]

theorem raised_eq_iff (reason e : SnapshotError) :
    reason.raised = e ↔ reason.Writable ∧ e = reason ∨ ¬ reason.Writable ∧ e = .unworded .digits := by
  by_cases h : reason.Writable
  · simp [raised_of_writable h, h, eq_comm]
  · simp [raised_of_not_writable h, h, eq_comm]

end SnapshotError
end Placement
