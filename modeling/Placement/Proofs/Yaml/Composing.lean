import Placement.Proofs.Yaml.Graph
import Placement.Proofs.Yaml.Lexing
import Placement.Yaml.Document

/-!
# What can go wrong while nodes are composed

The readers of nodes pass over the tokens of a text and take the texts of its scalars into the graph.  They fail where
the text is malformed, where a token could not be read and where collections lie too deep in one another, and in no
other way (`Document.ofTokens_composes`).
-/

namespace Placement.Yaml.Document
set_option autoImplicit false

variable {α : Type} {ts : List Token} {p : Progress}

/-- Texts of nodes: those of the scalars among the tokens, and the empty text of a node that is not there. -/
def IsText (ts : List Token) (text : List Char) : Prop := text = [] ∨ ∃ plain, .scalar text plain ∈ ts

/-- Errors of a document with given tokens. -/
inductive Composing (ts : List Token) : Error → Prop
  | malformed (cause : Malformed) : Composing ts (.malformed cause)
  | tooDeep : Composing ts (.scalar .tooDeep)
  | broken {e : Error} (h : .broken e ∈ ts) : Composing ts e

/-- The tokens ahead and the texts so far are those of the document. -/
structure Within (ts : List Token) (p : Progress) : Prop where
  subset : p.tokens ⊆ ts
  texts : p.graph.HasTexts (IsText ts)

abbrev Composes (ts : List Token) : Except Error (α × Progress) → Prop :=
  Yields (Composing ts) fun x => Within ts x.2

/-- A reader that leads from within a document to a place within it. -/
abbrev Sound (ts : List Token) (read : Reader α) : Prop := ∀ p, Within ts p → Composes ts (read p)

/-! ## Steps between tokens -/

theorem Within.withTokens (h : Within ts p) {ahead : List Token} (hsub : ahead ⊆ p.tokens) :
    Within ts { p with tokens := ahead } :=
  ⟨List.Subset.trans hsub h.subset, h.texts⟩

theorem Within.next (h : Within ts p) : Within ts p.next := h.withTokens (List.drop_subset 1 _)

theorem Within.comma (hp : Within ts p) (first : Bool) : Within ts (if first then p else p.next) := by
  split
  · exact hp
  · exact hp.next

theorem Within.head {t : Token} (h : Within ts p) (ht : p.tokens.head? = some t) : t ∈ ts :=
  h.subset (List.mem_of_head? ht)

theorem Within.begin (h : Within ts p) (anchor : Option String) {n : Node}
    (hn : ∀ text, n.content = .scalar text → IsText ts text) : Within ts (p.begin anchor n).2 :=
  ⟨h.subset, h.texts.add hn⟩

theorem Within.absent (h : Within ts p) : Within ts (absent p).2 :=
  h.begin none fun text htext => by
    cases htext
    exact .inl rfl

theorem unexpected_composes {good : α → Prop} (cause : Malformed) (h : p.tokens ⊆ ts) :
    Yields (Composing ts) good (unexpected cause p) := by
  unfold unexpected
  split
  · rename_i e rest heq
    exact .broken (h (heq ▸ List.mem_cons_self))
  · exact .malformed cause

theorem readUnless_sound {read : Reader NodeId} (stops : List Token) (h : Sound ts read) :
    Sound ts (readUnless stops read) := by
  intro p hp
  unfold readUnless
  exact .ite hp.absent (h p hp)

theorem behindColon_sound {read : Reader NodeId} (stops : List Token) (h : Sound ts read) :
    Sound ts (behindColon stops read) := by
  intro p hp
  unfold behindColon
  exact .ite (readUnless_sound stops h _ hp.next) hp.absent

/-! ## Properties and beginnings -/

theorem givenTag_malformed (handles : Handles) (handle : Option String) (suffix : String) :
    Yields (Composing ts) (fun _ => True) (givenTag handles handle suffix) := by
  unfold givenTag
  dsimp only
  split
  · trivial
  · split
    · trivial
    · exact .malformed _

theorem properties_composes (handles : Handles) (ahead : List Token) (h : ahead ⊆ ts) :
    Yields (Composing ts) (fun x => x.2 ⊆ ts) (properties handles ahead) := by
  have tagged (handle : Option String) (suffix : String) (f : GivenTag → Properties) {rest : List Token}
      (hrest : rest ⊆ ts) :
      Yields (Composing ts) (fun x : Properties × List Token => x.2 ⊆ ts)
        ((givenTag handles handle suffix).map fun tag => (f tag, rest)) :=
    (givenTag_malformed handles handle suffix).map fun _ _ => hrest
  have tail {t : Token} {rest : List Token} (h : t :: rest ⊆ ts) : rest ⊆ ts := (List.cons_subset.1 h).2
  fun_cases properties handles ahead
  · exact tagged _ _ (fun tag => ⟨some _, tag⟩) (tail (tail h))
  · exact tail h
  · exact .broken (h (by simp))
  · exact tagged _ _ (fun tag => ⟨some _, tag⟩) (tail (tail h))
  · exact tagged _ _ (fun tag => ⟨none, tag⟩) (tail h)
  · exact h

theorem collection_sound (anchor : Option String) (tag : Tag) (content : List α → Content) {read : Reader (List α)}
    (hcontent : ∀ items text, content items ≠ .scalar text) (h : Sound ts read) :
    Sound ts (collection anchor tag content read) := by
  intro p hp
  unfold collection
  split
  · exact .tooDeep
  · have hinside := hp.begin anchor (n := ⟨tag, content []⟩) fun text htext => absurd htext (hcontent _ _)
    exact Yields.map (h _ ⟨hinside.subset, hinside.texts⟩)
      fun x hx => ⟨hx.subset, hx.texts.setContent (hcontent x.1)⟩

/-- What is read at a beginning is of the document. -/
def Beginning.Sound (ts : List Token) : Beginning → Prop
  | .scalar text _ => IsText ts text
  | .sequence read => Document.Sound ts read
  | .mapping read => Document.Sound ts read

theorem begun_sound {b : Beginning} (q : Properties) (h : b.Sound ts) : Sound ts (begun q b) := by
  intro p hp
  unfold begun
  split
  · exact .malformed _
  · cases b with
    | scalar text plain =>
      refine hp.begin q.anchor fun other hother => ?_
      cases hother
      exact h
    | sequence read => exact collection_sound q.anchor _ .sequence (fun _ _ => Content.noConfusion) h p hp
    | mapping read => exact collection_sound q.anchor _ .mapping (fun _ _ => Content.noConfusion) h p hp

/-! ## Nodes -/

/-- All readers of nodes at one depth are sound. -/
structure AllSound (ts : List Token) (fuel : Nat) : Prop where
  node (handles : Handles) (place : Place) : Sound ts (node handles place fuel)
  blockItems (handles : Handles) : Sound ts (blockItems handles fuel)
  looseItems (handles : Handles) : Sound ts (looseItems handles fuel)
  blockEntries (handles : Handles) : Sound ts (blockEntries handles fuel)
  flowItems (handles : Handles) (first : Bool) : Sound ts (flowItems handles first fuel)
  flowEntries (handles : Handles) (first : Bool) : Sound ts (flowEntries handles first fuel)

section
variable {fuel : Nat} (ih : AllSound ts fuel) (handles : Handles)
include ih

theorem node_sound (place : Place) : Sound ts (node handles place (fuel + 1)) := by
  intro p hp
  rw [node]
  split
  · rename_i name ahead heq
    split
    · exact hp.withTokens (heq ▸ List.subset_cons_self _ _)
    · exact .malformed _
  · have hproperties := properties_composes handles p.tokens hp.subset
    split
    · rename_i e heq
      rw [heq] at hproperties
      exact hproperties
    · rename_i q ahead heq
      rw [heq] at hproperties
      have hahead : Within ts { p with tokens := ahead } := ⟨hproperties, hp.texts⟩
      dsimp only
      split
      · exact begun_sound q (b := .sequence _) (ih.looseItems handles) _ hahead
      · rename_i text plain hhead
        exact begun_sound q (b := .scalar text plain) (.inr ⟨plain, hahead.head hhead⟩) _ hahead.next
      · exact begun_sound q (b := .sequence _) (ih.flowItems handles true) _ hahead.next
      · exact begun_sound q (b := .mapping _) (ih.flowEntries handles true) _ hahead.next
      · exact begun_sound q (b := .sequence _) (ih.blockItems handles) _ hahead.next
      · exact begun_sound q (b := .sequence _) (ih.blockItems handles) _ hahead.next
      · exact begun_sound q (b := .mapping _) (ih.blockEntries handles) _ hahead.next
      · exact begun_sound q (b := .mapping _) (ih.blockEntries handles) _ hahead.next
      · rename_i hhead
        exact .broken (hahead.head hhead)
      · exact .ite (unexpected_composes _ hahead.subset) (begun_sound q (b := .scalar [] true) (.inl rfl) _ hahead)

theorem blockItems_sound : Sound ts (blockItems handles (fuel + 1)) := by
  intro p hp
  rw [blockItems]
  split
  · exact (readUnless_sound _ (ih.node handles .block) _ hp.next).bind fun x hx =>
      (ih.blockItems handles x.2 hx).bind fun y hy => hy
  · exact hp.next
  · exact unexpected_composes _ hp.subset

theorem looseItems_sound : Sound ts (looseItems handles (fuel + 1)) := by
  intro p hp
  rw [looseItems]
  split
  · exact (readUnless_sound _ (ih.node handles .block) _ hp.next).bind fun x hx =>
      (ih.looseItems handles x.2 hx).bind fun y hy => hy
  · exact hp

theorem blockEntries_sound : Sound ts (blockEntries handles (fuel + 1)) := by
  intro p hp
  rw [blockEntries]
  split
  · exact (readUnless_sound _ (ih.node handles .entry) _ hp.next).bind fun x hx =>
      (behindColon_sound _ (ih.node handles .entry) _ hx).bind fun y hy =>
        (ih.blockEntries handles y.2 hy).bind fun z hz => hz
  · exact hp.next
  · exact unexpected_composes _ hp.subset

theorem flowItems_sound (first : Bool) : Sound ts (flowItems handles first (fuel + 1)) := by
  intro p hp
  have others (x : NodeId × Progress) (hx : Within ts x.2) :
      Composes ts ((flowItems handles false fuel x.2).bind fun y => .ok (x.1 :: y.1, y.2)) :=
    (ih.flowItems handles false x.2 hx).bind fun y hy => hy
  have hnext := hp.comma first
  rw [flowItems]
  refine .ite hp.next (.ite (unexpected_composes _ hp.subset) (.ite hnext.next (.ite (Yields.bind ?_ others) ?_)))
  · refine collection_sound none .map .mapping (fun _ _ => Content.noConfusion) (fun q hq => ?_) _ hnext
    exact (readUnless_sound _ (ih.node handles .flow) _ hq.next).bind fun x hx =>
      (behindColon_sound _ (ih.node handles .flow) _ hx).bind fun y hy => hy
  · exact (ih.node handles .flow _ hnext).bind others

theorem flowEntries_sound (first : Bool) : Sound ts (flowEntries handles first (fuel + 1)) := by
  intro p hp
  have others (x : Entry × Progress) (hx : Within ts x.2) :
      Composes ts ((flowEntries handles false fuel x.2).bind fun y => .ok (x.1 :: y.1, y.2)) :=
    (ih.flowEntries handles false x.2 hx).bind fun y hy => hy
  have hnext := hp.comma first
  rw [flowEntries]
  refine .ite hp.next (.ite (unexpected_composes _ hp.subset) (.ite hnext.next (.ite ?_ ?_)))
  · exact (readUnless_sound _ (ih.node handles .flow) _ hnext.next).bind fun x hx =>
      (behindColon_sound _ (ih.node handles .flow) _ hx).bind fun y hy => others ((x.1, y.1), y.2) hy
  · exact (ih.node handles .flow _ hnext).bind fun x hx => others ((x.1, (absent x.2).1), (absent x.2).2) hx.absent

end

theorem allSound (ts : List Token) (fuel : Nat) : AllSound ts fuel := by
  -- Every reader calls the others with less fuel, so they are sound together.
  induction fuel with
  | zero =>
    refine ⟨fun handles place p hp => ?_, fun handles p hp => ?_, fun handles p hp => ?_, fun handles p hp => ?_,
      fun handles first p hp => ?_, fun handles first p hp => ?_⟩
    · rw [node]
      exact unexpected_composes _ hp.subset
    · rw [blockItems]
      exact unexpected_composes _ hp.subset
    · rw [looseItems]
      exact unexpected_composes _ hp.subset
    · rw [blockEntries]
      exact unexpected_composes _ hp.subset
    · rw [flowItems]
      exact unexpected_composes _ hp.subset
    · rw [flowEntries]
      exact unexpected_composes _ hp.subset
  | succ fuel ih =>
    exact ⟨node_sound ih, blockItems_sound ih, looseItems_sound ih, blockEntries_sound ih, flowItems_sound ih,
      flowEntries_sound ih⟩

/-! ## Documents -/

theorem directives_composes (seen : Bool) (handles : Handles) (ahead : List Token) (h : ahead ⊆ ts) :
    Yields (Composing ts) (fun x => x.2 ⊆ ts) (directives seen handles ahead) := by
  fun_induction directives seen handles ahead with
  | case1 => exact .malformed _
  | case2 _ _ _ _ _ ih => exact ih (List.cons_subset.1 h).2
  | case3 => exact .malformed _
  | case4 _ _ _ _ _ _ ih => exact ih (List.cons_subset.1 h).2
  | case5 _ _ _ ih => exact ih (List.cons_subset.1 h).2
  | case6 => exact h

/-- What a document comes to: its texts are those of its tokens, and the last of these tells the end. -/
def Composed (ts : List Token) (document : Option (NodeId × Graph)) : Prop :=
  .streamEnd ∈ ts ∧ ∀ root g, document = some (root, g) → g.HasTexts (IsText ts)

theorem finish_composes (root : NodeId) (hp : Within ts p) :
    Yields (Composing ts) (Composed ts) (finish root p) := by
  have hrest : p.tokens.dropWhile (· == .documentEnd) ⊆ ts :=
    List.Subset.trans (List.dropWhile_sublist _).subset hp.subset
  unfold finish
  split
  · rename_i heq
    refine ⟨hrest (heq ▸ List.mem_singleton_self _), fun root' g hg => ?_⟩
    cases hg
    exact hp.texts
  · exact (directives_composes false [] _ hrest).bind fun x hx => unexpected_composes _ hx

theorem ofTokens_composes (room : Nat) (ts : List Token) :
    Yields (Composing ts) (Composed ts) (ofTokens room ts) := by
  have hstart {ahead : List Token} (h : ahead ⊆ ts) : Within ts (.start room ahead) :=
    ⟨h, Graph.hasTexts_empty (.inl rfl)⟩
  have hfinish (x : NodeId × Progress) (hx : Within ts x.2) :
      Yields (Composing ts) (Composed ts) (finish x.1 x.2) := finish_composes x.1 hx
  unfold ofTokens
  dsimp only
  split
  · rename_i hend
    exact ⟨hend ▸ List.mem_singleton_self _, nofun⟩
  · refine (directives_composes false [] ts (List.Subset.refl ts)).bind fun x hx => ?_
    split
    · rename_i content heq
      have hcontent : Within ts (.start room content) := hstart ((List.cons_subset.1 (heq ▸ hx)).2)
      exact .ite (hfinish _ hcontent.absent) (((allSound ts _).node _ .block _ hcontent).bind hfinish)
    · exact .ite (unexpected_composes _ hx) (((allSound ts _).node _ .block _ (hstart hx)).bind hfinish)

end Placement.Yaml.Document
