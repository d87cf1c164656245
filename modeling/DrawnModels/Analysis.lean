import DrawnModels.Automaton.OfGraph
import DrawnModels.Automaton.Quotient
import DrawnModels.Coverability.Search
import DrawnModels.Graph.Draft
import DrawnModels.Petri.InitialMarking
import DrawnModels.Petri.OfGraph

/-!
# Analyses of drawn models

A graph is read as an automaton and minimized, or read as a Petri net and explored from an initial
marking.
-/

namespace DrawnModels

inductive Failure
  /-- The graph describes no automaton. -/
  | validation (e : ValidationError)
  /-- The records do not make up a graph. -/
  | adaptation (e : AdaptError)
  /-- The text is no initial marking. -/
  | marking (e : MarkingError)
  /-- The minimization contradicts itself. -/
  | defect (e : Defect)
deriving DecidableEq

namespace Failure

def message : Failure → String
  | validation e => "validation failed: " ++ e.message
  | adaptation e => "graph adaptation failed: " ++ e.message
  | marking e => "invalid initial marking: " ++ e.message
  | defect e => e.message

end Failure

namespace Graph

def minimize (g : Graph) (c : Conventions) : Except Failure Minimized := do
  let d ← (g.toDfa c).mapError .validation
  d.minimize.mapError .defect

/-- The coverability tree of the net that a graph describes. -/
def cover (g : Graph) (c : Conventions) (initial : InitialMarking .word) : Coverability.Tree .word :=
  let n := g.toNet c
  Coverability.explore n (initial.forNet n)

/-- The coverability tree from an initial marking that is given as text. -/
def coverText (g : Graph) (c : Conventions) (initial : String) :
    Except Failure (Coverability.Tree .word) := do
  let m ← (InitialMarking.parse .word initial).mapError .marking
  return g.cover c m

end Graph

end DrawnModels
