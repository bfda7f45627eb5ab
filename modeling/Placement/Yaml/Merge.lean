import Placement.Yaml.Error
import Placement.Yaml.Graph

/-!
# Merge keys

A key with the tag `merge` stands for the entries of the mapping behind it, or of the mappings of a sequence.
`Graph.flattenWithin` replaces such entries of a mapping by what they stand for, and makes texts of the keys with the tag
`value`.  It changes the nodes themselves, so whatever refers to one of them finds it flattened afterwards.
-/

namespace Placement.Yaml.Graph
set_option autoImplicit false

/-- Whether an entry stands for entries of other mappings. -/
def isMerge (g : Graph) (e : Entry) : Bool := g.tag e.1 == .merge

/-- Takes the first merge key out of a mapping, and gives the node behind it. -/
def takeMerge? (id : NodeId) (g : Graph) : Option (NodeId × Graph) :=
  let entries := g.entries id
  (entries.find? g.isMerge).map fun e =>
    (e.2, g.setContent id (.mapping (entries.eraseP g.isMerge)))

/-- Makes a text of a key that stands for its whole mapping. -/
def plainKey (g : Graph) (e : Entry) : Graph := if g.tag e.1 = .value then g.setTag e.1 .str else g

/-- Puts entries in front of those of a mapping, where the latter override them. -/
def addEntries (id : NodeId) (merged : List Entry) (g : Graph) : Graph :=
  let own := g.entries id
  (own.foldl plainKey g).setContent id (.mapping (merged ++ own))

/-- What the mappings of a sequence stand for as the value of a merge key, each of them flattened by `flat`; the
entries of the last mapping come first. -/
def bringAll (flat : NodeId → Graph → Except Error Graph) :
    List NodeId → Graph → Except Error (List Entry × Graph)
  | [], g => .ok ([], g)
  | item :: items, g =>
    match g.content item with
    | .mapping _ => do
      let g ← flat item g
      let es := g.entries item
      let (others, g) ← bringAll flat items g
      pure (others ++ es, g)
    | _ => .error (.malformed .badMerge)

/-- What a merge key stands for, by its value. -/
def bring (flat : NodeId → Graph → Except Error Graph) (source : NodeId) (g : Graph) :
    Except Error (List Entry × Graph) :=
  match g.content source with
  | .mapping _ => (flat source g).map fun g => (g.entries source, g)
  | .sequence items => bringAll flat items g
  | .scalar _ => .error (.malformed .badMerge)

/-- What the merge keys of a mapping stand for, at most `count` of them.  A merge key is taken out before its value is
flattened, so a mapping that is merged into itself has fewer of them afterwards. -/
def gather (flat : NodeId → Graph → Except Error Graph) (id : NodeId) :
    Nat → Graph → Except Error (List Entry × Graph)
  | 0, g => .ok ([], g)
  | count + 1, g =>
    match g.takeMerge? id with
    | none => .ok ([], g)
    | some (source, g) => do
      let (es, g) ← bring flat source g
      let (others, g) ← gather flat id count g
      pure (es ++ others, g)

/-- Brings the entries that merge keys stand for into a mapping, following merge keys into one another as far as a given
depth. -/
def flattenWithin : Nat → NodeId → Graph → Except Error Graph
  | 0, _, _ => .error (.scalar .tooDeep)
  | depth + 1, id, g =>
    (gather (flattenWithin depth) id (g.entries id).length g).map fun x => x.2.addEntries id x.1

end Placement.Yaml.Graph
