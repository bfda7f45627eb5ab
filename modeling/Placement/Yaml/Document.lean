import Placement.Yaml.Build
import Placement.Yaml.Lexer

/-!
# Documents

`Document.ofTokens` composes the nodes of the single document of a text, if it has one.  A node is an alias,
or a scalar or collection with perhaps an anchor and a tag; a missing node is an empty scalar.  Of two
nested calls of the readers of nodes at least one passes a token, which bounds their depth.
-/

namespace Placement.Yaml.Document
set_option autoImplicit false

/-! ## What is known on the way -/

/-- The tokens ahead, how many more collections may begin inside one another, the nodes that anchors name, and all nodes
that have begun. -/
structure Progress where
  tokens : List Token
  room : Nat
  anchors : List (String × NodeId)
  graph : Graph

def Progress.start (room : Nat) (tokens : List Token) : Progress := ⟨tokens, room, [], .empty⟩

/-- An error at a token, unless that token tells of an earlier one. -/
def unexpected {α : Type} (cause : Malformed) (p : Progress) : Except Error α :=
  match p.tokens with
  | .broken earlier :: _ => .error earlier
  | _ => .error (.malformed cause)

def Progress.next (p : Progress) : Progress := { p with tokens := p.tokens.drop 1 }

def Progress.sees (p : Progress) (ts : List Token) : Bool := p.tokens.head?.any ts.contains

/-- Begins a node, to which an anchor may refer from here on. -/
def Progress.begin (anchor : Option String) (n : Node) (p : Progress) : NodeId × Progress :=
  let id := p.graph.next
  let anchors := match anchor with
    | some name => (name, id) :: p.anchors
    | none => p.anchors
  (id, { p with anchors := anchors, graph := p.graph.add n })

/-- A node that is not there. -/
def absent (p : Progress) : NodeId × Progress := p.begin none ⟨.null, .scalar []⟩

/-- How something is read at a place. -/
abbrev Reader (α : Type) : Type := Progress → Except Error (α × Progress)

/-- No node where one of the given tokens comes next, and otherwise what `read` reads. -/
def readUnless (stops : List Token) (read : Reader NodeId) : Reader NodeId := fun p =>
  if p.sees stops then .ok (absent p) else read p

/-- The value behind a colon; without one it is absent. -/
def behindColon (stops : List Token) (read : Reader NodeId) : Reader NodeId := fun p =>
  if p.sees [.value] then readUnless stops read p.next else .ok (absent p)

/-! ## Tags -/

abbrev Handles : Type := List (String × String)

def standardHandles : Handles := [("!", "!"), ("!!", Tag.standardUri)]

/-- A tag as it is given to a node; the unspecific one leaves the choice to the content. -/
inductive GivenTag where
  | missing
  | unspecific
  | named (tag : Tag)

def givenTag (handles : Handles) (handle : Option String) (suffix : String) : Except Error GivenTag :=
  let named (uri : String) : GivenTag := if uri = "!" then .unspecific else .named (.ofUri uri)
  match handle with
  | none => .ok (named suffix)
  | some h =>
    match handles.lookup h with
    | some uri => .ok (named (uri ++ suffix))
    | none => .error (.malformed .undefinedHandle)

def GivenTag.orElse (fallback : Tag) : GivenTag → Tag
  | .named tag => tag
  | _ => fallback

/-- A plain scalar without a tag and every scalar with the unspecific tag has the tag that its text tells. -/
def GivenTag.ofText (text : List Char) (plain : Bool) : GivenTag → Tag
  | .named tag => tag
  | .unspecific => .ofText text
  | .missing => if plain then .ofText text else .str

structure Properties where
  anchor : Option String
  tag : GivenTag

def Properties.isEmpty (q : Properties) : Bool :=
  match q with
  | ⟨none, .missing⟩ => true
  | _ => false

/-- Anchor and tag in either order, and the tokens behind them.  An anchor is looked for behind a tag before the
handle of the tag is. -/
def properties (handles : Handles) : List Token → Except Error (Properties × List Token)
  | .anchor name :: .tag h s :: ts => (givenTag handles h s).map fun tag => (⟨some name, tag⟩, ts)
  | .anchor name :: ts => .ok (⟨some name, .missing⟩, ts)
  | .tag _ _ :: .broken e :: _ => .error e
  | .tag h s :: .anchor name :: ts => (givenTag handles h s).map fun tag => (⟨some name, tag⟩, ts)
  | .tag h s :: ts => (givenTag handles h s).map fun tag => (⟨none, tag⟩, ts)
  | ts => .ok (⟨none, .missing⟩, ts)

/-! ## Nodes -/

/-- Where a node stands: inside brackets, in block structure, or as key or value of a block mapping, where a
sequence need not be indented. -/
inductive Place where
  | flow | block | entry
deriving DecidableEq

/-- A collection with what `read` finds in it; inside of it its anchor refers to it already. -/
def collection {α : Type} (anchor : Option String) (tag : Tag) (content : List α → Content)
    (read : Reader (List α)) : Reader NodeId := fun p =>
  match p.room with
  | 0 => .error (.scalar .tooDeep)
  | room + 1 =>
    let (id, inside) := p.begin anchor ⟨tag, content []⟩
    (read { inside with room := room }).map fun x =>
      (id, { x.2 with room := room + 1, graph := x.2.graph.setContent id (content x.1) })

/-- What begins where a node is read. -/
inductive Beginning where
  | scalar (text : List Char) (plain : Bool)
  | sequence (read : Reader (List NodeId))
  | mapping (read : Reader (List Entry))

/-- A node with its properties, from its beginning on.  No two nodes have the same anchor. -/
def begun (q : Properties) (b : Beginning) : Reader NodeId := fun p =>
  if (q.anchor.bind fun name => p.anchors.lookup name).isSome then .error (.malformed .duplicateAnchor)
  else
    match b with
    | .scalar text plain => .ok (p.begin q.anchor ⟨q.tag.ofText text plain, .scalar text⟩)
    | .sequence read => collection q.anchor (q.tag.orElse .seq) .sequence read p
    | .mapping read => collection q.anchor (q.tag.orElse .map) .mapping read p

mutual

def node (handles : Handles) (place : Place) : Nat → Reader NodeId
  | 0, p => unexpected .expectedContent p
  | fuel + 1, p =>
    match p.tokens with
    | .alias name :: ts =>
      match p.anchors.lookup name with
      | some id => .ok (id, { p with tokens := ts })
      | none => .error (.malformed .undefinedAlias)
    | _ =>
      match properties handles p.tokens with
      | .error e => .error e
      | .ok (q, ts) =>
        let p : Progress := { p with tokens := ts }
        match p.tokens.head?, place with
        | some .blockEntry, .entry => begun q (.sequence (looseItems handles fuel)) p
        | some (.scalar text plain), _ => begun q (.scalar text plain) p.next
        | some .flowSequenceStart, _ => begun q (.sequence (flowItems handles true fuel)) p.next
        | some .flowMappingStart, _ => begun q (.mapping (flowEntries handles true fuel)) p.next
        | some .blockSequenceStart, .block | some .blockSequenceStart, .entry =>
          begun q (.sequence (blockItems handles fuel)) p.next
        | some .blockMappingStart, .block | some .blockMappingStart, .entry =>
          begun q (.mapping (blockEntries handles fuel)) p.next
        | some (.broken e), _ => .error e
        | _, _ => if q.isEmpty then unexpected .expectedContent p else begun q (.scalar [] true) p

/-- The items of an indented sequence, each behind its hyphen. -/
def blockItems (handles : Handles) : Nat → Reader (List NodeId)
  | 0, p => unexpected .expectedBlockEnd p
  | fuel + 1, p =>
    match p.tokens.head? with
    | some .blockEntry => do
      let (t, p) ← readUnless [.blockEntry, .blockEnd] (node handles .block fuel) p.next
      let (ts, p) ← blockItems handles fuel p
      pure (t :: ts, p)
    | some .blockEnd => .ok ([], p.next)
    | _ => unexpected .expectedBlockEnd p

/-- The items of a sequence that ends with its last hyphen. -/
def looseItems (handles : Handles) : Nat → Reader (List NodeId)
  | 0, p => unexpected .expectedBlockEnd p
  | fuel + 1, p =>
    match p.tokens.head? with
    | some .blockEntry => do
      let (t, p) ← readUnless [.blockEntry, .key, .value, .blockEnd] (node handles .block fuel) p.next
      let (ts, p) ← looseItems handles fuel p
      pure (t :: ts, p)
    | _ => .ok ([], p)

/-- The entries of a block mapping. -/
def blockEntries (handles : Handles) : Nat → Reader (List Entry)
  | 0, p => unexpected .expectedBlockEnd p
  | fuel + 1, p =>
    match p.tokens.head? with
    | some .key => do
      let stops : List Token := [.key, .value, .blockEnd]
      let (k, p) ← readUnless stops (node handles .entry fuel) p.next
      let (v, p) ← behindColon stops (node handles .entry fuel) p
      let (es, p) ← blockEntries handles fuel p
      pure ((k, v) :: es, p)
    | some .blockEnd => .ok ([], p.next)
    | _ => unexpected .expectedBlockEnd p

/-- The items of a sequence in brackets; a key makes a mapping of one entry. -/
def flowItems (handles : Handles) (first : Bool) : Nat → Reader (List NodeId)
  | 0, p => unexpected .expectedComma p
  | fuel + 1, p =>
    if p.sees [.flowSequenceEnd] then .ok ([], p.next)
    else if !first && !p.sees [.flowEntry] then unexpected .expectedComma p
    else
      let p := if first then p else p.next
      if p.sees [.flowSequenceEnd] then .ok ([], p.next)
      else do
        let stops : List Token := [.flowEntry, .flowSequenceEnd]
        let (t, p) ←
          if p.sees [.key] then
            collection none .map .mapping (fun p => do
              let (k, p) ← readUnless (.value :: stops) (node handles .flow fuel) p.next
              let (v, p) ← behindColon stops (node handles .flow fuel) p
              pure ([(k, v)], p)) p
          else node handles .flow fuel p
        let (ts, p) ← flowItems handles false fuel p
        pure (t :: ts, p)

/-- The entries of a mapping in brackets; a node that is not marked as a key is one without a value. -/
def flowEntries (handles : Handles) (first : Bool) : Nat → Reader (List Entry)
  | 0, p => unexpected .expectedComma p
  | fuel + 1, p =>
    if p.sees [.flowMappingEnd] then .ok ([], p.next)
    else if !first && !p.sees [.flowEntry] then unexpected .expectedComma p
    else
      let p := if first then p else p.next
      if p.sees [.flowMappingEnd] then .ok ([], p.next)
      else do
        let stops : List Token := [.flowEntry, .flowMappingEnd]
        let (e, p) ←
          if p.sees [.key] then do
            let (k, p) ← readUnless (.value :: stops) (node handles .flow fuel) p.next
            let (v, p) ← behindColon stops (node handles .flow fuel) p
            pure ((k, v), p)
          else do
            let (k, p) ← node handles .flow fuel p
            let (v, p) := absent p
            pure ((k, v), p)
        let (es, p) ← flowEntries handles false fuel p
        pure (e :: es, p)

end

/-! ## Documents -/

/-- The directives before a document: whether a version was among them, and the handles. -/
def directives (seen : Bool) (handles : Handles) :
    List Token → Except Error (Handles × List Token)
  | .versionDirective major :: ts =>
    if seen ∨ major ≠ 1 then .error (.malformed .directive) else directives true handles ts
  | .tagDirective handle uri :: ts =>
    if (handles.lookup handle).isSome then .error (.malformed .directive)
    else directives seen ((handle, uri) :: handles) ts
  | .otherDirective :: ts => directives seen handles ts
  | ts => .ok (handles, ts)

/-- A document with its outermost node may have marks of its end behind it and nothing else. -/
def finish (root : NodeId) (p : Progress) : Except Error (Option (NodeId × Graph)) :=
  match p.tokens.dropWhile (· == .documentEnd) with
  | [.streamEnd] => .ok (some (root, p.graph))
  | ts => (directives false [] ts).bind fun x => unexpected .secondDocument { p with tokens := x.2 }

/-- The only document of a text, or none if the text is empty.  Without a mark of its start a document has
no directives and is not empty. -/
def ofTokens (room : Nat) (tokens : List Token) : Except Error (Option (NodeId × Graph)) := do
  let fuel := 3 * tokens.length + 3
  if tokens = [.streamEnd] then pure none
  else
    let (declared, ts) ← directives false [] tokens
    match ts with
    | .documentStart :: content =>
      let handles := declared ++ standardHandles
      let p := Progress.start room content
      let (root, p) ← if content.head?.any Token.endsDocument then .ok (absent p)
        else node handles .block fuel p
      finish root p
    | _ =>
      if tokens.head?.any Token.isDirective then unexpected .expectedDocument (.start room ts)
      else
        let (root, p) ← node standardHandles .block fuel (.start room ts)
        finish root p

/-- The value of a text; no document is like an empty one.  Calls may be nested as deep as `budget`: a collection inside
another one takes two of them, and a node that stands for another one takes one. -/
def read (budget : Nat) (s : Stream) : Except Error Value :=
  (ofTokens (budget / 2) (Lexer.tokens s)).bind fun document =>
    match document with
    | some (root, g) => g.build budget root
    | none => .ok .null

end Placement.Yaml.Document
