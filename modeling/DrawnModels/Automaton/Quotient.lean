import DrawnModels.Automaton.Refinement
import DrawnModels.Automaton.MoveTable

/-!
# Quotients and minimization

In the quotient of an automaton the classes of a partition are the states. A class is called `q`
with its position, it accepts if one of its members does, and it moves where its members move. The
members of a class have to agree on that, so the partition must be a congruence.

The minimal automaton is the quotient by the classes of states that accept the same words. States
that no word reaches are kept.
-/

namespace DrawnModels

/-- A quotient together with the names of the states that were merged into each of its states. -/
structure Minimized where
  automaton : Dfa
  classes : List (SortedSet String)
deriving DecidableEq

namespace Minimized

def size (m : Minimized) : Nat :=
  m.automaton.size

/-- The names that were merged into a state. -/
def class? (m : Minimized) (q : Nat) : Option (SortedSet String) :=
  m.classes[q]?

/-- The state that a name was merged into. -/
def blockOf? (m : Minimized) (name : String) : Option Nat :=
  m.classes.findIdx? (name ∈ ·)

/-- Whether both automata agree and the classes are the same. -/
def agrees (m n : Minimized) : Bool :=
  m.automaton.agrees n.automaton && m.classes = n.classes

end Minimized

namespace Dfa

def classOf (p : Partition Nat) (q : Nat) : Except Defect Nat :=
  match p.classOf? q with
  | some i => .ok i
  | none => .error .unclassified

def recordClassMove (p : Partition Nat) (t : MoveTable Nat) (m : Nat × String × Nat) :
    Except Defect (MoveTable Nat) := do
  let source ← classOf p m.1
  let target ← classOf p m.2.2
  (t.record source m.2.1 target).mapError fun _ => .notCongruent

def classState (d : Dfa) (t : MoveTable Nat) (i : Nat) (c : Block) : State where
  name := "q" ++ toString i
  accepting := c.toList.any d.isAccepting
  moves := .ofList (t.movesOf i)

def quotient (d : Dfa) (p : Partition Nat) : Except Defect Minimized := do
  let t ← d.transitions.foldlM (recordClassMove p) .empty
  let initial ← classOf p d.initial
  return {
    automaton := {
      states := p.classes.mapIdx (d.classState t)
      alphabet := d.alphabet
      initial }
    classes := p.classes.map fun c => .ofList (c.toList.filterMap d.name?) }

/-- The least automaton that does what `d` does from each of its states. -/
def minimize (d : Dfa) : Except Defect Minimized := do
  d.quotient (← d.languagePartition)

end Dfa

end DrawnModels
