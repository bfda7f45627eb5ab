import Placement.Yaml.Tag

/-!
# Graphs of nodes

The nodes of a document are numbered as they begin.  A collection holds the numbers of the nodes in it, so an alias
is the number of the node that it stands for, and a collection may hold itself.
-/

namespace Placement.Yaml
set_option autoImplicit false

abbrev NodeId : Type := Nat

abbrev Entry : Type := NodeId × NodeId

inductive Content where
  | scalar (text : List Char)
  | sequence (items : List NodeId)
  | mapping (entries : List Entry)
deriving DecidableEq

structure Node where
  tag : Tag
  content : Content
deriving DecidableEq

structure Graph where
  nodes : Array Node

namespace Graph

def empty : Graph := ⟨#[]⟩

/-- A node; a number that is not in use stands for an empty scalar without a known tag. -/
def node (g : Graph) (id : NodeId) : Node := g.nodes[id]?.getD ⟨.unknown, .scalar []⟩

def tag (g : Graph) (id : NodeId) : Tag := (g.node id).tag

def content (g : Graph) (id : NodeId) : Content := (g.node id).content

/-- The entries of a mapping; another node has none. -/
def entries (g : Graph) (id : NodeId) : List Entry :=
  match g.content id with
  | .mapping entries => entries
  | _ => []

/-- Adds a node, whose number is the number of nodes before it. -/
def add (n : Node) (g : Graph) : Graph := ⟨g.nodes.push n⟩

def next (g : Graph) : NodeId := g.nodes.size

def setContent (id : NodeId) (content : Content) (g : Graph) : Graph :=
  ⟨g.nodes.modify id fun n => { n with content := content }⟩

def setTag (id : NodeId) (tag : Tag) (g : Graph) : Graph :=
  ⟨g.nodes.modify id fun n => { n with tag := tag }⟩

end Graph
end Placement.Yaml
