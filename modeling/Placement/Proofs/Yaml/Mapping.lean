import Placement.Proofs.Yaml.Graph
import Placement.Proofs.Yaml.Lexing
import Placement.Proofs.Yaml.Lines
import Placement.Yaml.Document

/-!
# The value of lines

A text of lines is a mapping of texts: `Document.read_lines` gives its value, which is there as soon as every word has a
value.  The nodes of a line are those of its key and of its word, one behind the other.
-/

namespace Placement.Yaml
set_option autoImplicit false

/-! ## Composing -/

/-- The node of a plain scalar. -/
def plainNode (text : List Char) : Node := ⟨Tag.ofText text, .scalar text⟩

/-- The entries of lines whose first key has a given number. -/
def lineEntries : Nat → List Line → List Entry
  | _, [] => []
  | id, _ :: es => (id, id + 1) :: lineEntries (id + 2) es

namespace Graph

def addLines : List Line → Graph → Graph
  | [], g => g
  | e :: es, g => addLines es ((g.add (plainNode e.key)).add (plainNode e.word))

end Graph

namespace Document

variable {handles : Handles} {p : Progress} {rest : List Token}

theorem node_plain (place : Place) (fuel : Nat) {text : List Char} (h : p.tokens = .scalar text true :: rest) :
    node handles place (fuel + 1) p =
      .ok (p.graph.nodes.size, { p with tokens := rest, graph := p.graph.add (plainNode text) }) := by
  obtain ⟨tokens, room, anchors, graph⟩ := p
  cases h
  rw [node]
  rfl

theorem readUnless_plain {stops : List Token} (place : Place) (fuel : Nat) {text : List Char}
    (hstops : .scalar text true ∉ stops) (h : p.tokens = .scalar text true :: rest) :
    readUnless stops (node handles place (fuel + 1)) p =
      .ok (p.graph.nodes.size, { p with tokens := rest, graph := p.graph.add (plainNode text) }) := by
  have hsees : p.sees stops = false := by
    rw [Progress.sees, h]
    simpa using hstops
  rw [readUnless, hsees]
  exact node_plain place fuel h

theorem blockEntries_line {e : Line} (fuel : Nat) (h : p.tokens = e.tokens ++ rest) :
    blockEntries handles (fuel + 2) p =
      (blockEntries handles (fuel + 1) { p with tokens := rest, graph := p.graph.addLines [e] }).map
        fun x => ((p.graph.nodes.size, p.graph.nodes.size + 1) :: x.1, x.2) := by
  obtain ⟨tokens, room, anchors, graph⟩ := p
  cases h
  have hstops (text : List Char) : Token.scalar text true ∉ [Token.key, .value, .blockEnd] := by simp
  have hkey : readUnless [.key, .value, .blockEnd] (node handles .entry (fuel + 1))
      ⟨.scalar e.key true :: .value :: .scalar e.word true :: rest, room, anchors, graph⟩ =
      .ok (graph.nodes.size, ⟨.value :: .scalar e.word true :: rest, room, anchors, graph.add (plainNode e.key)⟩) :=
    readUnless_plain .entry fuel (hstops _) rfl
  have hword : readUnless [.key, .value, .blockEnd] (node handles .entry (fuel + 1))
      ⟨.scalar e.word true :: rest, room, anchors, graph.add (plainNode e.key)⟩ =
      .ok ((graph.add (plainNode e.key)).nodes.size,
        ⟨rest, room, anchors, (graph.add (plainNode e.key)).add (plainNode e.word)⟩) :=
    readUnless_plain .entry fuel (hstops _) rfl
  have hcolon : behindColon [.key, .value, .blockEnd] (node handles .entry (fuel + 1))
      ⟨.value :: .scalar e.word true :: rest, room, anchors, graph.add (plainNode e.key)⟩ = _ := hword
  rw [blockEntries]
  show (readUnless [.key, .value, .blockEnd] (node handles .entry (fuel + 1))
    ⟨.scalar e.key true :: .value :: .scalar e.word true :: rest, room, anchors, graph⟩).bind _ = _
  rw [hkey]
  dsimp only [Except.bind]
  rw [hcolon]
  dsimp only [bind, Except.bind]
  rw [Graph.size_add]
  show _ = (blockEntries handles (fuel + 1)
    ⟨rest, room, anchors, (graph.add (plainNode e.key)).add (plainNode e.word)⟩).map _
  cases blockEntries handles (fuel + 1)
    ⟨rest, room, anchors, (graph.add (plainNode e.key)).add (plainNode e.word)⟩ <;> rfl

theorem blockEntries_lines {es : List Line} {fuel : Nat} (hfuel : es.length < fuel)
    (h : p.tokens = es.flatMap Line.tokens ++ .blockEnd :: rest) :
    blockEntries handles fuel p =
      .ok (lineEntries p.graph.nodes.size es, { p with tokens := rest, graph := p.graph.addLines es }) := by
  induction es generalizing fuel p with
  | nil =>
    obtain ⟨fuel, rfl⟩ : ∃ n, fuel = n + 1 := ⟨fuel - 1, by simp at hfuel; omega⟩
    obtain ⟨tokens, room, anchors, graph⟩ := p
    cases h
    rw [blockEntries]
    rfl
  | cons e es ih =>
    obtain ⟨fuel, rfl⟩ : ∃ n, fuel = n + 2 := ⟨fuel - 2, by simp at hfuel; omega⟩
    have htokens : p.tokens = e.tokens ++ (es.flatMap Line.tokens ++ .blockEnd :: rest) := by
      rw [h, List.flatMap_cons, List.append_assoc]
    have hnext : (p.graph.addLines [e]).nodes.size = p.graph.nodes.size + 2 := by
      show ((p.graph.add (plainNode e.key)).add (plainNode e.word)).nodes.size = _
      rw [Graph.size_add, Graph.size_add]
    rw [blockEntries_line fuel htokens, ih (by simp at hfuel; omega) rfl]
    show Except.ok
      ((p.graph.nodes.size, p.graph.nodes.size + 1) :: lineEntries (p.graph.addLines [e]).nodes.size es, _) = _
    rw [hnext]
    rfl

/-- The nodes of a text of lines: the mapping, and the key and the word of each line. -/
def linesGraph (es : List Line) : Graph :=
  ((Graph.empty.add ⟨.map, .mapping []⟩).addLines es).setContent 0 (.mapping (lineEntries 1 es))

theorem node_lines {es : List Line} {fuel : Nat} (room : Nat) (hfuel : es.length < fuel) :
    node handles .block (fuel + 1)
        (.start (room + 1) (.blockMappingStart :: (es.flatMap Line.tokens ++ [.blockEnd, .streamEnd]))) =
      .ok (0, ⟨[.streamEnd], room + 1, [], linesGraph es⟩) := by
  have hentries : blockEntries handles fuel
      ⟨es.flatMap Line.tokens ++ [.blockEnd, .streamEnd], room, [], Graph.empty.add ⟨.map, .mapping []⟩⟩ =
      .ok (lineEntries 1 es, ⟨[.streamEnd], room, [], (Graph.empty.add ⟨.map, .mapping []⟩).addLines es⟩) :=
    blockEntries_lines hfuel rfl
  rw [node]
  show (blockEntries handles fuel
    ⟨es.flatMap Line.tokens ++ [.blockEnd, .streamEnd], room, [], Graph.empty.add ⟨.map, .mapping []⟩⟩).map _ = _
  rw [hentries]
  rfl

theorem ofTokens_lines (room : Nat) (es : List Line) :
    ofTokens (room + 1) (.blockMappingStart :: (es.flatMap Line.tokens ++ [.blockEnd, .streamEnd])) =
      .ok (some (0, linesGraph es)) := by
  obtain ⟨fuel, hfuel, hlong⟩ : ∃ fuel, 3 * (Token.blockMappingStart :: (es.flatMap Line.tokens ++
      [.blockEnd, .streamEnd])).length + 3 = fuel + 1 ∧ es.length < fuel := by
    have hlength : es.length ≤ (es.flatMap Line.tokens).length := by
      induction es with
      | nil => exact Nat.le_refl 0
      | cons e es ih =>
        simp only [List.flatMap_cons, List.length_append, List.length_cons, Line.tokens]
        omega
    refine ⟨_, rfl, ?_⟩
    simp only [List.length_cons, List.length_append, List.length_nil]
    omega
  unfold ofTokens
  dsimp only
  rw [hfuel, if_neg (by simp)]
  show (node standardHandles .block (fuel + 1) (.start (room + 1) (.blockMappingStart :: _))).bind _ = _
  rw [node_lines room hlong]
  rfl

end Document

/-! ## Building -/

theorem Tag.empty?_ofText (text : List Char) : (Tag.ofText text).empty? = none := by
  unfold Tag.ofText
  dsimp only
  split_ifs <;> rfl

namespace Graph

theorem scalarValue_plain {g : Graph} {id : Nat} {text : List Char} (reach : Nat) (h : g.node id = plainNode text) :
    g.scalarValue (reach + 1) id = Scalar.value (Tag.ofText text) text := by
  have htag : g.tag id = Tag.ofText text := by rw [tag, h]; rfl
  have hcontent : g.content id = .scalar text := by rw [content, h]; rfl
  have htext : g.textOf (reach + 1) id = .ok text := by
    rw [textOf, hcontent]
  unfold scalarValue
  rw [htag, htext, hcontent]
  generalize Tag.ofText text = t
  cases t <;> rfl

/-- The nodes of lines stand in a row from a number on. -/
def Lays (g : Graph) : Nat → List Line → Prop
  | _, [] => True
  | id, e :: es => g.node id = plainNode e.key ∧ g.node (id + 1) = plainNode e.word ∧ g.Lays (id + 2) es

theorem size_addLines (es : List Line) (g : Graph) : (g.addLines es).nodes.size = g.nodes.size + 2 * es.length := by
  induction es generalizing g with
  | nil => rfl
  | cons e es ih =>
    rw [addLines, ih, size_add, size_add, List.length_cons]
    omega

theorem node_addLines_of_lt {es : List Line} {g : Graph} {id : Nat} (h : id < g.nodes.size) :
    (g.addLines es).node id = g.node id := by
  induction es generalizing g with
  | nil => rfl
  | cons e es ih =>
    rw [addLines, ih (by rw [size_add, size_add]; omega), node_add, if_neg (by rw [size_add]; omega), node_add,
      if_neg (by omega)]

theorem lays_addLines (es : List Line) (g : Graph) : (g.addLines es).Lays g.nodes.size es := by
  induction es generalizing g with
  | nil => trivial
  | cons e es ih =>
    have hnext : ((g.add (plainNode e.key)).add (plainNode e.word)).nodes.size = g.nodes.size + 2 := by
      rw [size_add, size_add]
    refine ⟨?_, ?_, ?_⟩
    · rw [addLines, node_addLines_of_lt (by omega), node_add, if_neg (by rw [size_add]; omega), node_add, if_pos rfl]
    · rw [addLines, node_addLines_of_lt (by omega), node_add, if_pos (by rw [size_add])]
    · rw [← hnext]
      exact ih _

/-- Only the nodes of the lines count. -/
theorem Lays.congr {g g' : Graph} {id : Nat} {es : List Line} (h : g.Lays id es)
    (hnode : ∀ other, id ≤ other → g'.node other = g.node other) : g'.Lays id es := by
  induction es generalizing id with
  | nil => trivial
  | cons e es ih =>
    exact ⟨(hnode id le_rfl).trans h.1, (hnode (id + 1) (by omega)).trans h.2.1,
      ih h.2.2 fun other hother => hnode other (by omega)⟩

end Graph

/-- The entries that lines stand for, once all words have values. -/
def lineValues (es : List Line) : Except Error (List (Value × Value)) :=
  es.mapM fun e => (Scalar.value (Tag.ofText e.word) e.word).map fun v => (.text (String.ofList e.key), v)

theorem lineValues_cons (e : Line) (es : List Line) :
    lineValues (e :: es) = (Scalar.value (Tag.ofText e.word) e.word).bind fun v =>
      (lineValues es).map fun vs => (.text (String.ofList e.key), v) :: vs := by
  rw [lineValues, List.mapM_cons]
  cases Scalar.value (Tag.ofText e.word) e.word <;> rfl

namespace Assembly

theorem visit_plain {s : Assembly} {id reach : Nat} {text : List Char} (hreach : s.reach = reach + 1)
    (hvalue : s.values[id]?.join = none) (h : s.graph.node id = plainNode text) :
    s.visit id = (Scalar.value (Tag.ofText text) text).map fun v => (v, s.setValue id v) := by
  have htag : (s.graph.tag id).empty? = none := by
    rw [Graph.tag, h]
    exact Tag.empty?_ofText text
  rw [visit, hvalue]
  dsimp only
  rw [htag]
  dsimp only
  rw [hreach, Graph.scalarValue_plain reach h]

theorem values_setValue {s : Assembly} {id other : Nat} (v : Value) (h : id ≠ other) :
    (s.setValue id v).values[other]? = s.values[other]? := by
  unfold setValue
  rw [Array.getElem?_setIfInBounds, if_neg h]

/-- The entries of lines are visited one after another, up to a word without a value. -/
theorem visitEntries_lines {s : Assembly} {id reach : Nat} {es : List Line} (hreach : s.reach = reach + 1)
    (hkeys : ∀ e ∈ es, Tag.ofText e.key = .str) (hlays : s.graph.Lays id es)
    (hvalues : ∀ other, id ≤ other → s.values[other]?.join = none) :
    Yields (fun e => lineValues es = .error e) (fun x => lineValues es = .ok x.1 ∧ x.2.line = s.line)
      (s.visitEntries (lineEntries id es)) := by
  induction es generalizing id s with
  | nil => exact ⟨rfl, rfl⟩
  | cons e es ih =>
    obtain ⟨hstr, hkeys⟩ := List.forall_mem_cons.1 hkeys
    obtain ⟨hkey, hword, hlays⟩ := hlays
    -- The key gets a name, since a text in a term is unfolded to its bytes.
    obtain ⟨k, hk⟩ : ∃ k, Value.text (String.ofList e.key) = k := ⟨_, rfl⟩
    have hnext (other : Nat) (h : id + 1 ≤ other) : (s.setValue id k).values[other]?.join = none := by
      rw [values_setValue k (by omega)]
      exact hvalues other (by omega)
    have hvisit : s.visit id = .ok (k, s.setValue id k) := by
      rw [visit_plain hreach (hvalues id le_rfl) hkey, hstr, ← hk]
      rfl
    have hcollection : k.isCollection = false := by rw [← hk]; rfl
    have hvisit' := visit_plain (s := s.setValue id k) hreach (hnext (id + 1) le_rfl) hword
    rw [lineEntries, visitEntries, lineValues_cons, hk, hvisit]
    dsimp only [bind, Except.bind]
    rw [hcollection, hvisit']
    cases Scalar.value (Tag.ofText e.word) e.word with
    | error c => exact rfl
    | ok v =>
      have hlater (other : Nat) (h : id + 2 ≤ other) :
          ((s.setValue id k).setValue (id + 1) v).values[other]?.join = none := by
        rw [values_setValue v (by omega)]
        exact hnext other (by omega)
      have hrest := ih (s := (s.setValue id k).setValue (id + 1) v) hreach hkeys hlays hlater
      refine (hrest.mono (fun c hc => ?_) fun _ hx => hx).bind fun x hx => ⟨?_, hx.2⟩
      · rw [hc]
        rfl
      · rw [hx.1]
        rfl

end Assembly

namespace Graph

theorem tag_of_mem_lineEntries {g : Graph} {id : Nat} {es : List Line} (hkeys : ∀ e ∈ es, Tag.ofText e.key = .str)
    (hlays : g.Lays id es) : ∀ x ∈ lineEntries id es, g.tag x.1 = .str := by
  induction es generalizing id with
  | nil => exact fun _ => nofun
  | cons e es ih =>
    obtain ⟨hstr, hkeys⟩ := List.forall_mem_cons.1 hkeys
    refine List.forall_mem_cons.2 ⟨?_, ih hkeys hlays.2.2⟩
    rw [tag, hlays.1]
    exact hstr

/-- A mapping whose keys are texts stays as it is. -/
theorem flattenWithin_texts {g : Graph} {id : Nat} {entries : List Entry} (reach : Nat)
    (hnode : g.node id = ⟨.map, .mapping entries⟩) (hkeys : ∀ x ∈ entries, g.tag x.1 = .str) :
    ∃ flat, g.flattenWithin (reach + 1) id = .ok flat ∧ ∀ other, flat.node other = g.node other := by
  have hentries : g.entries id = entries := by rw [Graph.entries, content, hnode]
  have hmerge : g.takeMerge? id = none := by
    rw [takeMerge?, hentries]
    refine Option.map_eq_none_iff.2 (List.find?_eq_none.2 fun x hx => ?_)
    rw [isMerge, hkeys x hx]
    exact Bool.noConfusion
  have hgather (flat : Nat → Graph → Except Error Graph) (count : Nat) : gather flat id count g = .ok ([], g) := by
    cases count with
    | zero => rfl
    | succ count => rw [gather, hmerge]
  have hplain : entries.foldl plainKey g = g := by
    clear hnode hentries
    induction entries with
    | nil => rfl
    | cons x xs ih =>
      obtain ⟨hx, hxs⟩ := List.forall_mem_cons.1 hkeys
      rw [List.foldl_cons, plainKey, hx, if_neg (by decide)]
      exact ih hxs
  refine ⟨g.addEntries id [], ?_, fun other => ?_⟩
  · rw [flattenWithin, hgather]
    rfl
  · rw [addEntries, hentries, hplain, List.nil_append, node_setContent]
    split_ifs with h
    · rw [h.1, hnode]
    · rfl

theorem node_linesGraph (es : List Line) :
    (Document.linesGraph es).node 0 = ⟨.map, .mapping (lineEntries 1 es)⟩ := by
  have hsize : 0 < ((Graph.empty.add ⟨.map, .mapping []⟩).addLines es).nodes.size := by
    rw [size_addLines, size_add]
    omega
  rw [Document.linesGraph, node_setContent, if_pos ⟨rfl, hsize⟩, node_addLines_of_lt (by rw [size_add]; omega)]
  rfl

theorem lays_linesGraph (es : List Line) : (Document.linesGraph es).Lays 1 es :=
  (lays_addLines es (Graph.empty.add ⟨.map, .mapping []⟩)).congr fun other hother => by
    have hne : other ≠ 0 := by
      rintro rfl
      exact absurd hother (by decide)
    rw [Document.linesGraph, node_setContent, if_neg fun h => hne h.1]

end Graph

namespace Assembly

theorem visit_collection {s : Assembly} {id : Nat} {v : Value} (hvalue : s.values[id]?.join = none)
    (h : (s.graph.tag id).empty? = some v) :
    s.visit id = .ok (v, { s.setValue id v with line := id :: s.line }) := by
  rw [visit, hvalue]
  dsimp only
  rw [h]

/-- A mapping whose keys are texts is filled with its own entries. -/
theorem fill_texts {s : Assembly} {id reach : Nat} {entries : List Entry} (hreach : s.reach = reach + 1)
    (hnode : s.graph.node id = ⟨.map, .mapping entries⟩) (hkeys : ∀ x ∈ entries, s.graph.tag x.1 = .str) :
    ∃ flat : Graph, (∀ other, flat.node other = s.graph.node other) ∧
      s.fill id = (visitEntries entries ⟨flat, s.values, s.line, s.reach⟩).map fun x => (.mapping x.1, x.2) := by
  obtain ⟨g, values, line, _⟩ := s
  cases hreach
  obtain ⟨flat, hflat, hsame⟩ := Graph.flattenWithin_texts reach hnode hkeys
  have htag : g.tag id = .map := by rw [Graph.tag, hnode]
  have hcontent : g.content id = .mapping entries := by rw [Graph.content, hnode]
  have hentries : flat.entries id = entries := by rw [Graph.entries, Graph.content, hsame, hnode]
  refine ⟨flat, hsame, ?_⟩
  rw [fill, htag, hcontent]
  dsimp only
  rw [hflat]
  dsimp only [bind, Except.bind]
  rw [hentries]
  rfl

theorem values_start (reach : Nat) (g : Graph) (id : Nat) : (start reach g).values[id]?.join = none := by
  unfold start
  rw [Array.getElem?_replicate]
  split_ifs <;> rfl

end Assembly

/-- A text of lines is a mapping, if all of its words have values. -/
theorem Graph.build_lines {es : List Line} (reach : Nat) (hkeys : ∀ e ∈ es, Tag.ofText e.key = .str) :
    (Document.linesGraph es).build (reach + 1) 0 = (lineValues es).map .mapping := by
  have hnode := node_linesGraph es
  have hlays := lays_linesGraph es
  generalize Document.linesGraph es = g at hnode hlays
  have hempty : (g.tag 0).empty? = some (.mapping []) := by rw [tag, hnode]; rfl
  -- Only the mapping itself has a value when its entries are visited, and no collection is in line.
  obtain ⟨s, hs⟩ : ∃ s, { (Assembly.start (reach + 1) g).setValue 0 (.mapping []) with line := [] } = s := ⟨_, rfl⟩
  have hgraph : s.graph = g := by rw [← hs]; rfl
  have hline : s.line = [] := by rw [← hs]
  have hreach : s.reach = reach + 1 := by rw [← hs]; rfl
  have hnone (other : Nat) (h : 1 ≤ other) : s.values[other]?.join = none := by
    rw [← hs]
    exact (congrArg Option.join (Assembly.values_setValue _ (by omega))).trans (Assembly.values_start _ g other)
  rw [← hgraph] at hnode hlays
  obtain ⟨flat, hsame, hfill⟩ := Assembly.fill_texts hreach hnode (tag_of_mem_lineEntries hkeys hlays)
  have hvisits := Assembly.visitEntries_lines (s := ⟨flat, s.values, s.line, s.reach⟩) hreach hkeys
    (hlays.congr fun other _ => hsame other) hnone
  rw [build, Assembly.visit_collection (Assembly.values_start _ g 0) hempty]
  dsimp only [bind, Except.bind]
  rw [if_neg (by simp), hs, hfill]
  cases h : Assembly.visitEntries (lineEntries 1 es) ⟨flat, s.values, s.line, s.reach⟩ with
  | error c =>
    rw [h] at hvisits
    have hlines : lineValues es = .error c := hvisits
    rw [hlines]
    rfl
  | ok x =>
    rw [h] at hvisits
    have hlines : lineValues es = .ok x.1 ∧ x.2.line = s.line := hvisits
    rw [hlines.1]
    dsimp only [Except.map]
    rw [Assembly.fillAll, if_pos (by rw [hlines.2, hline]; rfl)]
    rfl

/-- One mapping of texts needs no more than two nested calls. -/
theorem Document.read_lines {budget : Nat} (hbudget : 2 ≤ budget) {e : Line} {es : List Line}
    (hes : ∀ x ∈ e :: es, x.Valid) (hkeys : ∀ x ∈ e :: es, Tag.ofText x.key = .str) :
    read budget ⟨(e :: es).flatMap Line.chars, none⟩ = (lineValues (e :: es)).map .mapping := by
  obtain ⟨reach, rfl⟩ : ∃ reach, budget = reach + 1 := ⟨budget - 1, by omega⟩
  obtain ⟨room, hroom⟩ : ∃ room, (reach + 1) / 2 = room + 1 := ⟨(reach + 1) / 2 - 1, by omega⟩
  unfold read
  rw [Lexer.tokens_lines hes, hroom, ofTokens_lines]
  exact Graph.build_lines reach hkeys

end Placement.Yaml
