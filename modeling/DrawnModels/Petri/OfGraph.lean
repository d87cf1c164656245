import DrawnModels.Graph.Conventions
import DrawnModels.Petri.Net

/-!
# Petri nets read off graphs

Nodes are places, transitions, or neither. An edge from a place to a transition is an input arc and
an edge from a transition to a place is an output arc. Other nodes and edges do not count.

Whether a graph is drawn properly is a separate question: every node has to have the shape of a
place or of a transition, whatever its name, and every edge has to run between nodes of different
kinds.
-/

namespace DrawnModels

inductive ShapeError
  /-- A node is drawn neither as a place nor as a transition. -/
  | unknownShape (node shape : String)
  /-- An edge runs between two places or between two transitions. -/
  | sameKind (source target : String)
deriving DecidableEq

namespace ShapeError

def message : ShapeError → String
  | unknownShape node shape =>
    "node \"" ++ node ++ "\" has shape \"" ++ shape ++
      "\" which is neither a place nor a transition"
  | sameKind source target =>
    "edge from \"" ++ source ++ "\" to \"" ++ target ++ "\" connects two nodes of the same kind"

end ShapeError

/-- The places at the other ends of the edges to a transition and from it, in edge order. -/
structure NamedArcs where
  inputs : List String
  outputs : List String
deriving DecidableEq

inductive NodeKind
  | place
  | transition
deriving DecidableEq

namespace Graph

/-- The identifiers of the places, in node order. -/
def places (g : Graph) (c : Conventions) : List String :=
  (g.nodes.filter c.isPlace).map Node.id

def transitions (g : Graph) (c : Conventions) : List String :=
  (g.nodes.filter c.isTransition).map Node.id

/-- Adds an edge to the arcs of the transition at one of its ends. An edge that does not run between
a place and a transition changes nothing. -/
def addArc (places : List String) (arcs : KeyedList String NamedArcs) (e : Edge) :
    KeyedList String NamedArcs :=
  if places.contains e.source && arcs.contains e.target then
    arcs.modify e.target fun a => { a with inputs := a.inputs ++ [e.source] }
  else if places.contains e.target && arcs.contains e.source then
    arcs.modify e.source fun a => { a with outputs := a.outputs ++ [e.target] }
  else arcs

/-- The arcs of all transitions, gathered by going through the edges. -/
def arcs (g : Graph) (c : Conventions) : KeyedList String NamedArcs :=
  g.edges.foldl (addArc (g.places c)) (.ofList ((g.transitions c).map fun t => (t, ⟨[], []⟩)))

def toNet (g : Graph) (c : Conventions) : Net :=
  .make (g.places c) ((g.arcs c).entries.map fun e => ⟨e.1, e.2.inputs, e.2.outputs⟩)

/-- The kind of a node by its shape alone. -/
def drawnKind (c : Conventions) (n : Node) : Except ShapeError NodeKind :=
  if n.attributes.shape = c.placeShape then .ok .place
  else if n.attributes.shape = c.transitionShape then .ok .transition
  else .error (.unknownShape n.id n.attributes.shape)

/-- Refuses an edge between nodes of the same kind. -/
def checkEdge (kinds : List (String × NodeKind)) (e : Edge) : Except ShapeError Unit :=
  if kinds.lookup e.source = kinds.lookup e.target then .error (.sameKind e.source e.target)
  else .ok ()

/-- Checks that a graph is drawn like a Petri net, first the nodes and then the edges. -/
def checkShape (g : Graph) (c : Conventions) : Except ShapeError Unit := do
  let kinds ← g.nodes.mapM fun n => (drawnKind c n).map fun k => (n.id, k)
  g.edges.forM (checkEdge kinds)

def isNet (g : Graph) (c : Conventions) : Bool :=
  (g.checkShape c).isOk

end Graph

end DrawnModels
