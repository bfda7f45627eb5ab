import Placement.Proofs.Yaml.Graph
import Placement.Proofs.Yaml.Lexing
import Placement.Yaml.Build

/-!
# What can go wrong while values are built

A scalar has no value if its text is not of the form that its tag asks for (`Scalar.value_fails`).  Merge keys change
nodes, but not the texts of scalars; so the value of a document fails to exist on a scalar with one of its texts, on
nodes that stand for one another without end, or because it is malformed (`Graph.build_builds`).
-/

namespace Placement.Yaml
set_option autoImplicit false

/-! ## Scalars -/

namespace Scalar

/-- Errors of the texts of numbers, truth values and dates. -/
def IsFault (e : Error) : Prop := ∃ f, e = .scalar f

/-- Any result, unless the text has a fault. -/
abbrev Reads {α : Type} : Except Error α → Prop := Yields IsFault fun _ => True

theorem fault_reads {α : Type} (f : ScalarFault) : Reads (fault f : Except Error α) := ⟨f, rfl⟩

theorem mapM_reads {α β : Type} {f : α → Except Error β} (h : ∀ a, Reads (f a)) (as : List α) :
    Reads (as.mapM f) := by
  induction as with
  | nil => trivial
  | cons a as ih =>
    rw [List.mapM_cons]
    exact (h a).bind fun b _ => ih.bind fun bs _ => trivial

theorem integer_reads (base : Nat) (text : List Char) : Reads (integer base text) := by
  unfold integer
  dsimp only
  refine .ite (fault_reads _) ?_
  split
  · trivial
  · exact fault_reads _

theorem int_reads (text : List Char) : Reads (int text) := by
  have hunsigned (body : List Char) : Reads (unsignedInt body) := by
    unfold unsignedInt
    split
    · exact fault_reads _
    · trivial
    · exact integer_reads 2 _
    · exact integer_reads 16 _
    · exact integer_reads 8 _
    · exact .ite ((mapM_reads (integer_reads 10) _).map fun _ _ => trivial) (integer_reads 10 _)
  exact (hunsigned _).map fun _ _ => trivial

theorem number_reads (text : List Char) : Reads (number text) := by
  unfold number
  split
  · trivial
  · exact fault_reads _

theorem addPlaces_reads (power : Nat) (sum : Double) (ds : List Double) : Reads (addPlaces power sum ds) := by
  induction ds generalizing power sum with
  | nil => trivial
  | cons d ds ih =>
    rw [addPlaces]
    split
    · exact ih _ _
    · exact fault_reads _

theorem float_reads (text : List Char) : Reads (float text) := by
  have hunsigned (body : List Char) : Reads (unsignedFloat body) :=
    .ite trivial (.ite trivial (.ite ((mapM_reads number_reads _).bind fun ds _ => addPlaces_reads 1 .zero _)
      (number_reads body)))
  exact .ite (fault_reads _) ((hunsigned _).map fun _ _ => trivial)

theorem bool_reads (text : List Char) : Reads (bool text) := .ite trivial (.ite trivial (fault_reads _))

theorem timestamp_reads (text : List Char) : Reads (timestamp text) := by
  unfold timestamp
  split
  · exact fault_reads _
  · split
    · exact fault_reads _
    · trivial

/-- A scalar without a value is malformed or a faulty number, truth value or date. -/
theorem value_fails (tag : Tag) (text : List Char) :
    Yields (fun e => (∃ cause, e = .malformed cause) ∨ tag ∈ [.bool, .int, .float, .timestamp] ∧ ∃ f, e = .scalar f)
      (fun _ => True) (value tag text) := by
  have hfault {x : Except Error Value} (htag : tag ∈ [.bool, .int, .float, .timestamp]) (hx : Reads x) :
      Yields (fun e => (∃ cause, e = .malformed cause) ∨
        tag ∈ [.bool, .int, .float, .timestamp] ∧ ∃ f, e = .scalar f) (fun _ => True) x :=
    hx.mono (fun _ he => .inr ⟨htag, he⟩) fun _ => id
  unfold value
  split
  · trivial
  · exact hfault (by simp) ((bool_reads text).map fun _ _ => trivial)
  · exact hfault (by simp) ((int_reads text).map fun _ _ => trivial)
  · exact hfault (by simp) ((float_reads text).map fun _ _ => trivial)
  · unfold binary
    split
    · trivial
    · exact .inl ⟨_, rfl⟩
  · exact hfault (by simp) (timestamp_reads text)
  · trivial
  all_goals exact .inl ⟨_, rfl⟩

end Scalar

/-! ## Merge keys -/

variable {P : List Char → Prop}

/-- Errors of the value of a document with texts of one kind. -/
inductive Building (P : List Char → Prop) : Error → Prop
  | malformed (cause : Malformed) : Building P (.malformed cause)
  | tooDeep : Building P (.scalar .tooDeep)
  | momentOfCollection : Building P (.scalar .momentOfCollection)
  | valueless {tag : Tag} {text : List Char} {f : ScalarFault} (htext : P text)
      (hvalue : Scalar.value tag text = .error (.scalar f)) : Building P (.scalar f)

namespace Graph
variable {g : Graph} {flat : NodeId → Graph → Except Error Graph}

/-- A change of a graph that leaves its texts of one kind. -/
abbrev Keeps (P : List Char → Prop) (flat : NodeId → Graph → Except Error Graph) : Prop :=
  ∀ id g, HasTexts P g → Yields (Building P) (HasTexts P) (flat id g)

theorem HasTexts.takeMerge? {id source : NodeId} {g' : Graph} (hg : g.HasTexts P)
    (h : g.takeMerge? id = some (source, g')) : g'.HasTexts P := by
  obtain ⟨e, -, he⟩ := Option.map_eq_some_iff.1 h
  cases he
  exact hg.setContent fun _ => Content.noConfusion

theorem HasTexts.addEntries (hg : g.HasTexts P) (id : NodeId) (merged : List Entry) :
    (g.addEntries id merged).HasTexts P := by
  have hkeys (es : List Entry) (g : Graph) (hg : g.HasTexts P) : (es.foldl plainKey g).HasTexts P := by
    induction es generalizing g with
    | nil => exact hg
    | cons e es ih =>
      refine ih _ ?_
      unfold plainKey
      split
      · exact hg.setTag .str
      · exact hg
  exact (hkeys _ _ hg).setContent fun _ => Content.noConfusion

theorem bringAll_builds (hflat : Keeps P flat) (items : List NodeId) (hg : g.HasTexts P) :
    Yields (Building P) (fun x => x.2.HasTexts P) (bringAll flat items g) := by
  induction items generalizing g with
  | nil => exact hg
  | cons item items ih =>
    rw [bringAll]
    split
    · exact (hflat item g hg).bind fun g hg => (ih hg).bind fun x hx => hx
    · exact .malformed _

theorem bring_builds (hflat : Keeps P flat) (source : NodeId) (hg : g.HasTexts P) :
    Yields (Building P) (fun x => x.2.HasTexts P) (bring flat source g) := by
  unfold bring
  split
  · exact (hflat source g hg).map fun g hg => hg
  · exact bringAll_builds hflat _ hg
  · exact .malformed _

theorem gather_builds (hflat : Keeps P flat) (id : NodeId) (count : Nat) (hg : g.HasTexts P) :
    Yields (Building P) (fun x => x.2.HasTexts P) (gather flat id count g) := by
  induction count generalizing g with
  | zero => exact hg
  | succ count ih =>
    rw [gather]
    split
    · exact hg
    · rename_i source g' htake
      exact (bring_builds hflat source (hg.takeMerge? htake)).bind fun x hx => (ih hx).bind fun y hy => hy

theorem flattenWithin_keeps (depth : Nat) : Keeps P (flattenWithin depth) := by
  induction depth with
  | zero => exact fun _ _ _ => .tooDeep
  | succ depth ih => exact fun id g hg => (gather_builds ih id _ hg).map fun x hx => hx.addEntries id x.1

/-! ## Scalars of a document -/

theorem textOf_builds (fuel : Nat) (id : NodeId) (hg : g.HasTexts P) :
    Yields (Building P) P (g.textOf fuel id) := by
  induction fuel generalizing id with
  | zero => exact .tooDeep
  | succ fuel ih =>
    rw [textOf]
    split
    · rename_i text heq
      exact hg id text heq
    · exact .malformed _
    · split
      · exact ih _
      · exact .malformed _

theorem scalarValue_builds (reach : Nat) (id : NodeId) (hg : g.HasTexts P) :
    Yields (Building P) (fun _ => True) (g.scalarValue reach id) := by
  unfold scalarValue
  split
  · exact .malformed _
  · exact .malformed _
  · exact .malformed _
  · refine (textOf_builds reach id hg).bind fun text htext => ?_
    split
    · exact .momentOfCollection
    · have hfails := Scalar.value_fails (g.tag id) text
      cases hvalue : Scalar.value (g.tag id) text with
      | ok v => trivial
      | error e =>
        rw [hvalue] at hfails
        obtain ⟨cause, rfl⟩ | ⟨-, f, rfl⟩ := hfails
        · exact .malformed cause
        · exact .valueless htext hvalue

end Graph

/-! ## Collections -/

namespace Assembly
variable {s : Assembly}

/-- An attempt that leaves the texts of an assembly of one kind. -/
abbrev Builds {α : Type} (P : List Char → Prop) : Except Error (α × Assembly) → Prop :=
  Yields (Building P) fun x => x.2.graph.HasTexts P

theorem visit_builds (id : NodeId) (hs : s.graph.HasTexts P) : Builds P (s.visit id) := by
  unfold visit
  split
  · exact hs
  · split
    · exact hs
    · exact (Graph.scalarValue_builds _ id hs).map fun _ _ => hs

theorem visitAll_builds (ids : List NodeId) (hs : s.graph.HasTexts P) : Builds P (s.visitAll ids) := by
  induction ids generalizing s with
  | nil => exact hs
  | cons id ids ih => exact (visit_builds id hs).bind fun x hx => (ih hx).bind fun y hy => hy

theorem visitEntries_builds (es : List Entry) (hs : s.graph.HasTexts P) : Builds P (s.visitEntries es) := by
  induction es generalizing s with
  | nil => exact hs
  | cons e es ih =>
    refine (visit_builds e.1 hs).bind fun x hx => .ite (.malformed _) ?_
    exact (visit_builds e.2 hx).bind fun y hy => (ih hy).bind fun z hz => hz

theorem visitPairs_builds (ids : List NodeId) (hs : s.graph.HasTexts P) : Builds P (s.visitPairs ids) := by
  induction ids generalizing s with
  | nil => exact hs
  | cons id ids ih =>
    rw [visitPairs]
    split
    · exact (visit_builds _ hs).bind fun x hx => (visit_builds _ hx).bind fun y hy => (ih hy).bind fun z hz => hz
    · exact .malformed _

theorem fill_builds (id : NodeId) (hs : s.graph.HasTexts P) : Builds P (s.fill id) := by
  obtain ⟨g, values, line, reach⟩ := s
  have hentries (flattened : Graph) (h : flattened.HasTexts P) :
      Builds P (visitEntries (flattened.entries id) ⟨flattened, values, line, reach⟩) := visitEntries_builds _ h
  have hflatten : Yields (Building P) (Graph.HasTexts P) (g.flattenWithin reach id) :=
    Graph.flattenWithin_keeps _ id g hs
  unfold fill
  dsimp only
  split
  · exact (visitAll_builds _ hs).map fun x hx => hx
  · exact (visitPairs_builds _ hs).map fun x hx => hx
  · exact (visitPairs_builds _ hs).map fun x hx => hx
  · exact hflatten.bind fun g hg => (hentries g hg).bind fun x hx => hx
  · exact hflatten.bind fun g hg => (hentries g hg).bind fun x hx => hx
  · exact .malformed _

theorem fillAll_builds (fuel : Nat) (ids : List NodeId) (hs : s.graph.HasTexts P) :
    Yields (Building P) (fun _ => True) (s.fillAll fuel ids) := by
  induction fuel generalizing ids s with
  | zero => trivial
  | succ fuel ih =>
    cases ids with
    | nil =>
      rw [fillAll]
      exact .ite trivial (ih _ hs)
    | cons id ids => exact (fill_builds id hs).bind fun x hx => ih ids hx

end Assembly

theorem Graph.build_builds {g : Graph} (reach : Nat) (root : NodeId) (hg : g.HasTexts P) :
    Yields (Building P) (fun _ => True) (g.build reach root) := by
  refine (Assembly.visit_builds (s := .start reach g) root hg).bind fun x hx => .ite trivial ?_
  refine (Assembly.fill_builds (s := { x.2 with line := [] }) root hx).bind fun y hy => ?_
  exact (Assembly.fillAll_builds _ [] hy).bind fun _ _ => trivial

end Placement.Yaml
