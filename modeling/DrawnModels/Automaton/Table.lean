import DrawnModels.Automaton.Basic
import DrawnModels.Text.Box
import DrawnModels.Text.Shown

/-!
# Automata as text

An automaton is summed up in a line, or laid out as a table with a row for each state and a column
for each symbol. In the table accepting states stand in parentheses and the initial state is bold
and has an arrow in front.
-/

namespace DrawnModels

namespace Dfa

def summary (d : Dfa) : String :=
  "DFA with states " ++ shown (SortedSet.ofList d.names) ++ " over " ++ shownAll d.alphabet ++
    ", accepting " ++ shown (SortedSet.ofList (d.accepting.filterMap d.name?))

def stateCell (d : Dfa) (q : Nat) (s : State) : Text.Cell :=
  let name := if s.accepting then "(" ++ s.name ++ ")" else s.name
  Text.lines (if q = d.initial then "->" ++ Text.bold name else name)

def moveCell (d : Dfa) (s : State) (symbol : String) : Text.Cell :=
  Text.lines (((s.moves.find? symbol).bind d.name?).getD "-")

def transitionTable (d : Dfa) : String :=
  Text.boxed (["State"] :: d.alphabet.map Text.lines)
    (d.states.mapIdx fun q s => d.stateCell q s :: d.alphabet.map (d.moveCell s))

end Dfa

end DrawnModels
