import DrawnModels.Automaton.Basic
import DrawnModels.Automaton.MoveTable
import DrawnModels.Graph.Conventions
import DrawnModels.Text.Quoted

/-!
# Automata read off graphs

Every node becomes a state and every symbol of an edge a move. The graph has to be deterministic and
without edges for the empty word, has to have one initial node, and has to be complete: a node that
is an end of some edge needs a move on every symbol. Nodes without edges stay without moves.

The demands are checked in this order, edges one after the other and nodes one after the other, and
the first fault found is reported.
-/

namespace DrawnModels

inductive ValidationError
  /-- An edge stands for the empty word. -/
  | epsilon (source target : String)
  /-- Two edges lead from one state on one symbol to different states. -/
  | nondeterministic (clash : Clash String)
  /-- No node is initial. -/
  | missingInitial
  /-- Several nodes are initial. -/
  | ambiguousInitial (states : List String)
  /-- A node that is an end of some edge has no move on a symbol. -/
  | incomplete (state symbol : String)
deriving DecidableEq

namespace ValidationError

def message : ValidationError → String
  | epsilon source target =>
    "edge from \"" ++ source ++ "\" to \"" ++ target ++ "\" is an epsilon transition"
  | nondeterministic c =>
    "state \"" ++ c.source ++ "\" has transitions to \"" ++ c.first ++ "\" and \"" ++ c.second ++
      "\" on \"" ++ c.symbol ++ "\""
  | missingInitial => "no state is marked as initial"
  | ambiguousInitial states =>
    "more than one state is marked as initial: " ++ Text.quotedList states
  | incomplete state symbol =>
    "state \"" ++ state ++ "\" has no transition on \"" ++ symbol ++ "\""

end ValidationError

namespace Graph

/-- The symbols of the edges in the order in which they occur first. -/
def alphabet (g : Graph) : List String :=
  (g.edges.flatMap Edge.symbols).eraseDups

def readSymbol (e : Edge) (t : MoveTable String) (symbol : String) :
    Except ValidationError (MoveTable String) :=
  (t.record e.source symbol e.target).mapError .nondeterministic

/-- Records the symbols of an edge, unless it stands for the empty word. -/
def readEdge (c : Conventions) (t : MoveTable String) (e : Edge) :
    Except ValidationError (MoveTable String) :=
  if c.isEpsilonEdge e then .error (.epsilon e.source e.target)
  else e.symbols.foldlM (readSymbol e) t

def moveTable (g : Graph) (c : Conventions) : Except ValidationError (MoveTable String) :=
  g.edges.foldlM (readEdge c) .empty

def initial (g : Graph) (c : Conventions) : Except ValidationError String :=
  match (g.nodes.filter c.isInitial).map Node.id with
  | [] => .error .missingInitial
  | [q] => .ok q
  | several => .error (.ambiguousInitial several)

/-- The first node with an edge that lacks a move, with the first symbol on which it lacks one. -/
def firstGap? (g : Graph) (t : MoveTable String) : Option (String × String) :=
  (g.ids.filter g.isTouched).findSome? fun q =>
    (g.alphabet.find? fun a => !t.contains (q, a)).map fun a => (q, a)

def toState (g : Graph) (c : Conventions) (t : MoveTable String) (n : Node) : State where
  name := n.id
  accepting := c.isAccepting n
  moves := .ofList ((t.movesOf n.id).map fun m => (m.1, g.indexOf m.2))

def toDfa (g : Graph) (c : Conventions) : Except ValidationError Dfa := do
  let t ← g.moveTable c
  let q ← g.initial c
  match g.firstGap? t with
  | some (state, symbol) => .error (.incomplete state symbol)
  | none =>
    .ok { states := g.nodes.map (g.toState c t), alphabet := g.alphabet, initial := g.indexOf q }

def isDfa (g : Graph) (c : Conventions) : Bool :=
  (g.toDfa c).isOk

end Graph

end DrawnModels
