import Placement.Yaml.Graph

/-!
# Nodes of graphs

What is at a node after a node has been added or changed.
-/

namespace Placement.Yaml.Graph
set_option autoImplicit false

variable {g : Graph} {id other : Nat} {n : Node} {content : Content}

theorem node_add (g : Graph) (n : Node) (id : Nat) :
    (g.add n).node id = if id = g.nodes.size then n else g.node id := by
  unfold node add
  rw [Array.getElem?_push]
  split <;> rfl

theorem getD_modify {α : Type} (nodes : Array α) (f : α → α) (a : α) (id other : Nat) :
    (nodes.modify id f)[other]?.getD a =
      if other = id ∧ id < nodes.size then f (nodes[id]?.getD a) else nodes[other]?.getD a := by
  rw [Array.getElem?_modify]
  by_cases h : other = id
  · subst h
    by_cases hsize : other < nodes.size
    · simp [hsize]
    · simp [hsize]
  · simp [h, Ne.symm h]

theorem node_setContent (g : Graph) (id : Nat) (content : Content) (other : Nat) :
    (g.setContent id content).node other =
      if other = id ∧ id < g.nodes.size then ⟨(g.node id).tag, content⟩ else g.node other :=
  getD_modify ..

theorem node_setTag (g : Graph) (id : Nat) (tag : Tag) (other : Nat) :
    (g.setTag id tag).node other =
      if other = id ∧ id < g.nodes.size then ⟨tag, (g.node id).content⟩ else g.node other :=
  getD_modify ..

@[simp] theorem size_add (g : Graph) (n : Node) : (g.add n).nodes.size = g.nodes.size + 1 := Array.size_push ..

/-! ## Texts -/

/-- All scalars of a graph have texts of one kind. -/
def HasTexts (P : List Char → Prop) (g : Graph) : Prop := ∀ id text, g.content id = .scalar text → P text

section
variable {P : List Char → Prop}

theorem hasTexts_empty (h : P []) : empty.HasTexts P := by
  intro id text htext
  cases htext
  exact h

theorem HasTexts.add (hg : g.HasTexts P) (hn : ∀ text, n.content = .scalar text → P text) :
    (g.add n).HasTexts P := by
  intro id text htext
  rw [content, node_add] at htext
  split at htext
  · exact hn text htext
  · exact hg id text htext

theorem HasTexts.setContent (hg : g.HasTexts P) (hcontent : ∀ text, content ≠ .scalar text) :
    (g.setContent id content).HasTexts P := by
  intro other text htext
  rw [Graph.content, node_setContent] at htext
  split at htext
  · exact absurd htext (hcontent text)
  · exact hg other text htext

theorem HasTexts.setTag (hg : g.HasTexts P) (tag : Tag) : (g.setTag id tag).HasTexts P := by
  intro other text htext
  rw [Graph.content, node_setTag] at htext
  split at htext
  · exact hg id text htext
  · exact hg other text htext

end

end Placement.Yaml.Graph
