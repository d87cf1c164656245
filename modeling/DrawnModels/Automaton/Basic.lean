import DrawnModels.Collection.KeyedList

/-!
# Deterministic automata

States are numbered in the order in which they are listed. Each state has a name, and for some of
the symbols a state that follows. A run stops early at a symbol on which nothing follows, and such
a word is not accepted.

Nothing here forces numbers to be in range or names to be distinct. The automata that are read off
a graph, and those made from them, are better behaved.
-/

namespace DrawnModels

structure State where
  name : String
  accepting : Bool
  moves : KeyedList String Nat
deriving DecidableEq

namespace State

/-- The moves with each symbol given by its position in the alphabet. -/
def numberedMoves (s : State) (alphabet : List String) : KeyedList Nat Nat :=
  .ofList (s.moves.entries.map fun m => (alphabet.idxOf m.1, m.2))

end State

structure Dfa where
  states : List State
  alphabet : List String
  initial : Nat
deriving DecidableEq

namespace Dfa

def size (d : Dfa) : Nat :=
  d.states.length

/-- The names of the states in the order of their numbers. -/
def names (d : Dfa) : List String :=
  d.states.map State.name

def name? (d : Dfa) (q : Nat) : Option String :=
  d.states[q]?.map State.name

def stateId? (d : Dfa) (name : String) : Option Nat :=
  d.names.idxOf? name

def isAccepting (d : Dfa) (q : Nat) : Bool :=
  d.states[q]?.any State.accepting

/-- The accepting states in ascending order. -/
def accepting (d : Dfa) : List Nat :=
  (List.range d.size).filter d.isAccepting

/-- The state that follows `q` on a symbol. -/
def successor? (d : Dfa) (q : Nat) (symbol : String) : Option Nat :=
  d.states[q]?.bind fun s => s.moves.find? symbol

/-- The moves from `q` in the order in which they were added. -/
def movesFrom (d : Dfa) (q : Nat) : List (String × Nat) :=
  match d.states[q]? with
  | some s => s.moves.entries
  | none => []

/-- All moves as source, symbol and target, by ascending source. -/
def transitions (d : Dfa) : List (Nat × String × Nat) :=
  (List.range d.size).flatMap fun q => (d.movesFrom q).map fun m => (q, m.1, m.2)

def run? (d : Dfa) : Nat → List String → Option Nat
  | q, [] => some q
  | q, symbol :: word => (d.successor? q symbol).bind fun p => run? d p word

def accepts (d : Dfa) (word : List String) : Bool :=
  (d.run? d.initial word).any d.isAccepting

/-- Whether two automata have the same states under the same numbers, the same symbols in whatever
order, and the same moves by the positions of the symbols. -/
def agrees (a b : Dfa) : Bool :=
  a.names = b.names &&
    a.alphabet.all (b.alphabet.contains ·) && b.alphabet.all (a.alphabet.contains ·) &&
    a.states.isEqv b.states (fun s t =>
      (s.numberedMoves a.alphabet).sameMap (t.numberedMoves b.alphabet)) &&
    a.accepting = b.accepting && a.initial = b.initial

end Dfa

end DrawnModels
