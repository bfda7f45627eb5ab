import Placement.Yaml.Merge
import Placement.Yaml.Scalar

/-!
# Values of documents

`Graph.build` makes the value of a document from its nodes.  The value of a scalar is there at once; a collection
waits in line until those before it have been filled, and is empty until then.  So collections are filled level by
level, the nodes of each are looked at in order, and the first error met in this order is the error of the document.

In the value of a document the collections below the outermost one are left empty, since they may hold themselves.
-/

namespace Placement.Yaml
set_option autoImplicit false

/-- A document on the way to its value: its nodes, the values of those that have one, the collections in line, the last
one first, and how far nodes that stand for one another are followed. -/
structure Assembly where
  graph : Graph
  values : Array (Option Value)
  line : List NodeId
  reach : Nat

namespace Tag

/-- What a collection is before it is filled; a tag without one is for scalars. -/
def empty? : Tag → Option Value
  | .seq | .omap | .pairs => some (.list [])
  | .map => some (.mapping [])
  | .set => some (.set [])
  | _ => none

end Tag

namespace Graph

/-- The text of a scalar, or of the scalar that stands for a mapping under a key with the tag `value`. -/
def textOf (g : Graph) : Nat → NodeId → Except Error (List Char)
  | 0, _ => .error (.scalar .tooDeep)
  | fuel + 1, id =>
    match g.content id with
    | .scalar text => .ok text
    | .sequence _ => .error (.malformed .wrongKind)
    | .mapping entries =>
      match entries.find? fun e => g.tag e.1 == .value with
      | some e => g.textOf fuel e.2
      | none => .error (.malformed .wrongKind)

def scalarValue (g : Graph) (reach : Nat) (id : NodeId) : Except Error Value :=
  match g.tag id with
  | .merge | .value | .unknown => .error (.malformed .unknownTag)
  | tag =>
    (g.textOf reach id).bind fun text =>
      match tag, g.content id with
      | .timestamp, .mapping _ => .error (.scalar .momentOfCollection)
      | _, _ => Scalar.value tag text

end Graph

namespace Assembly

def start (reach : Nat) (g : Graph) : Assembly := ⟨g, .replicate g.nodes.size none, [], reach⟩

def setValue (id : NodeId) (v : Value) (s : Assembly) : Assembly :=
  { s with values := s.values.setIfInBounds id (some v) }

/-- The value of a node; a collection that is met for the first time gets in line. -/
def visit (id : NodeId) (s : Assembly) : Except Error (Value × Assembly) :=
  match s.values[id]?.join with
  | some v => .ok (v, s)
  | none =>
    match (s.graph.tag id).empty? with
    | some v => .ok (v, { s.setValue id v with line := id :: s.line })
    | none => (s.graph.scalarValue s.reach id).map fun v => (v, s.setValue id v)

def visitAll : List NodeId → Assembly → Except Error (List Value × Assembly)
  | [], s => .ok ([], s)
  | id :: ids, s => do
    let (v, s) ← s.visit id
    let (vs, s) ← visitAll ids s
    pure (v :: vs, s)

/-- The keys and values of a mapping; a collection is no key. -/
def visitEntries : List Entry → Assembly → Except Error (List (Value × Value) × Assembly)
  | [], s => .ok ([], s)
  | (key, value) :: es, s => do
    let (k, s) ← s.visit key
    if k.isCollection then throw (.malformed .unhashableKey)
    let (v, s) ← s.visit value
    let (others, s) ← visitEntries es s
    pure ((k, v) :: others, s)

/-- The items of a list of pairs, each a mapping with one entry. -/
def visitPairs : List NodeId → Assembly → Except Error (List Value × Assembly)
  | [], s => .ok ([], s)
  | id :: ids, s =>
    match s.graph.content id with
    | .mapping [(key, value)] => do
      let (k, s) ← s.visit key
      let (v, s) ← s.visit value
      let (others, s) ← visitPairs ids s
      pure (.list [k, v] :: others, s)
    | _ => .error (.malformed .wrongKind)

/-- Fills a collection as its tag says. -/
def fill (id : NodeId) : Assembly → Except Error (Value × Assembly)
  | ⟨g, values, line, reach⟩ =>
    match g.tag id, g.content id with
    | .seq, .sequence items => (visitAll items ⟨g, values, line, reach⟩).map fun x => (.list x.1, x.2)
    | .omap, .sequence items | .pairs, .sequence items =>
      (visitPairs items ⟨g, values, line, reach⟩).map fun x => (.list x.1, x.2)
    | .map, .mapping _ => do
      let g ← g.flattenWithin reach id
      let (es, s) ← visitEntries (g.entries id) ⟨g, values, line, reach⟩
      pure (.mapping es, s)
    | .set, .mapping _ => do
      let g ← g.flattenWithin reach id
      let (es, s) ← visitEntries (g.entries id) ⟨g, values, line, reach⟩
      pure (.set (es.map Prod.fst), s)
    | _, _ => .error (.malformed .wrongKind)

/-- Fills all collections in line and those that get in line meanwhile, each once. -/
def fillAll : Nat → List NodeId → Assembly → Except Error Assembly
  | 0, _, s => .ok s
  | fuel + 1, [], s =>
    if s.line.isEmpty then .ok s else fillAll fuel s.line.reverse { s with line := [] }
  | fuel + 1, id :: ids, s => (s.fill id).bind fun x => fillAll fuel ids x.2

end Assembly

/-- The value of the document with a given outermost node. -/
def Graph.build (reach : Nat) (root : NodeId) (g : Graph) : Except Error Value := do
  let (v, s) ← Assembly.visit root (.start reach g)
  if s.line.isEmpty then pure v
  else
    let (filled, s) ← Assembly.fill root { s with line := [] }
    let _ ← s.fillAll (2 * g.nodes.size + 1) []
    pure filled

end Placement.Yaml
