import DrawnModels.Graph.Basic

/-!
# Drawing conventions

What the attributes of a graph mean: which label stands for the empty word, how initial and
accepting states look, and how places and transitions are told apart. The defaults are the usual
conventions for drawings of automata and Petri nets.
-/

namespace DrawnModels

structure Conventions where
  epsilon : String := "ε"
  initialStyle : String := "bold"
  acceptingShape : String := "doublecircle"
  placeShape : String := "circle"
  placeStart : String := "p"
  transitionShape : String := "box"
  transitionStart : String := "t"
deriving DecidableEq

namespace Conventions

def isEpsilon (c : Conventions) (symbol : String) : Bool :=
  symbol = c.epsilon

/-- A state is initial if one of the comma separated words of its style says so. -/
def isInitial (c : Conventions) (n : Node) : Bool :=
  (Text.trimmedPieces (· = ',') n.attributes.style).contains c.initialStyle

/-- A state is accepting if its shape mentions the accepting shape. -/
def isAccepting (c : Conventions) (n : Node) : Bool :=
  Text.mentions n.attributes.shape c.acceptingShape

/-- A place has the shape of places, or an identifier that starts like one. -/
def isPlace (c : Conventions) (n : Node) : Bool :=
  n.attributes.shape = c.placeShape || Text.startsWith n.id c.placeStart

/-- A transition is no place, and it has the shape of transitions or an identifier that starts like
one. -/
def isTransition (c : Conventions) (n : Node) : Bool :=
  !c.isPlace n &&
    (n.attributes.shape = c.transitionShape || Text.startsWith n.id c.transitionStart)

/-- Whether an edge stands for the empty word, by its whole label or by one of its symbols. -/
def isEpsilonEdge (c : Conventions) (e : Edge) : Bool :=
  c.isEpsilon e.label || e.symbols.any c.isEpsilon

end Conventions

end DrawnModels
