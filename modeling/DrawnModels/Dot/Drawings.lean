import DrawnModels.Automaton.Basic
import DrawnModels.Coverability.Tree
import DrawnModels.Dot.Digraph

/-!
# Drawings of automata and coverability trees

Automata are drawn from left to right, with a double circle for an accepting state and bold lines
for the initial one. Coverability trees are drawn from the top down. Nodes show their marking with a
line for each place, and a node whose marking was in the tree already is a box.
-/

namespace DrawnModels

namespace Dfa

/-- The name of a state, or `q` with its number for a state that does not exist. -/
def ident (d : Dfa) (q : Nat) : String :=
  (d.name? q).getD ("q" ++ toString q)

def dotAttributes (d : Dfa) (q : Nat) : List Dot.NodeAttribute :=
  [.shape (if d.isAccepting q then "doublecircle" else "circle"), .label (d.ident q)] ++
    if q = d.initial then [.style "bold"] else []

def toDigraph (d : Dfa) : Dot.Digraph Nat where
  name := some "DFA"
  header := ["rankdir=LR", "ranksep=1.0", "nodesep=0.6"]
  nodes := List.range d.size
  ident := d.ident
  attributes := d.dotAttributes
  edgesFrom q := (d.movesFrom q).map fun m => (m.2, [.label m.1])

end Dfa

namespace Coverability.Tree

variable {cap : Capacity}

/-- The marking with a line break of the DOT language after every place but the last. -/
def dotAttributes (t : Tree cap) (id : Nat) : List Dot.NodeAttribute :=
  [.label (t.label id "\\n"), .shape (if t.isRevisited id then "box" else "ellipse")]

def dotEdge? (t : Tree cap) (child : Nat) : Option (Nat × List Dot.EdgeAttribute) :=
  ((t.origin? child).bind fun o => t.transitionName? o.transition).map fun name =>
    (child, [.label name])

def toDigraph (t : Tree cap) : Dot.Digraph Nat where
  name := some "CoverabilityTree"
  header := ["rankdir=TB", "nodesep=0.6", "ranksep=0.8"]
  nodes := List.range t.size
  ident id := "n" ++ toString id
  attributes := t.dotAttributes
  edgesFrom id := (t.children id).filterMap t.dotEdge?

end Coverability.Tree

end DrawnModels
