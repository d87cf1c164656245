import DrawnModels.Graph.Attributes

/-!
# Graphs

A graph has nodes with distinct identifiers and directed edges between them, both with attributes.
Nodes and edges keep their order, and every end of an edge is one of the nodes.
-/

namespace DrawnModels

structure Node where
  id : String
  attributes : Attributes
deriving DecidableEq

structure Edge where
  source : String
  target : String
  attributes : Attributes
deriving DecidableEq

namespace Edge

def label (e : Edge) : String :=
  e.attributes.label

/-- The symbols that an edge stands for: the pieces of its label between commas, trimmed, without
the empty ones. -/
def symbols (e : Edge) : List String :=
  (Text.trimmedPieces (· = ',') e.label).filter (· ≠ "")

/-- Whether two edges have the same ends and the same attributes, in whatever order. -/
def agrees (e f : Edge) : Bool :=
  e.source = f.source && e.target = f.target && e.attributes.agrees f.attributes

end Edge

structure Graph where
  table : KeyedList String Attributes
  edges : List Edge
  source_mem : ∀ e ∈ edges, e.source ∈ table.keys
  target_mem : ∀ e ∈ edges, e.target ∈ table.keys
deriving DecidableEq

namespace Graph

def nodes (g : Graph) : List Node :=
  g.table.entries.map fun e => ⟨e.1, e.2⟩

def ids (g : Graph) : List String :=
  g.table.keys

def size (g : Graph) : Nat :=
  g.nodes.length

def isEmpty (g : Graph) : Bool :=
  g.nodes.isEmpty

def node? (g : Graph) (id : String) : Option Node :=
  (g.table.find? id).map fun a => ⟨id, a⟩

def indexOf (g : Graph) (id : String) : Nat :=
  g.ids.idxOf id

/-- Whether a node is an end of some edge. -/
def isTouched (g : Graph) (id : String) : Bool :=
  g.edges.any fun e => e.source = id || e.target = id

/-- Whether two graphs have the same nodes in whatever order and the same edges in the same
order. The order of attributes does not matter. -/
def agrees (g h : Graph) : Bool :=
  g.nodes.all (fun n => (h.node? n.id).any fun m => n.attributes.agrees m.attributes) &&
    h.nodes.all (fun n => (g.node? n.id).any fun m => n.attributes.agrees m.attributes) &&
    g.edges.isEqv h.edges Edge.agrees

end Graph

end DrawnModels
