import DrawnModels.Automaton.OfGraph
import DrawnModels.Automaton.Quotient
import DrawnModels.Graph.Draft

/-!
# Automata with every access checked

Automata are read off graphs and minimized by way of tables. A map numbers the names of the states,
symbols are known by their positions in the alphabet, and a state has a row that says what follows
at which position.

Here nothing is taken for granted about the tables. Whatever is looked up may be missing, and where
something has to hold it is checked. What goes wrong in this way is a fault, as opposed to a graph
that is rejected because it describes no automaton. Otherwise what is done is what `Graph.toDfa` and
`Dfa.minimize` do by name, step by step.
-/

namespace DrawnModels

/-- What must not happen while an automaton is made or minimized. -/
inductive Fault
  /-- An end of an edge has no number. -/
  | unknownEnd
  /-- Nothing stands at a position of a table. -/
  | outOfRange
  /-- The number of rows is not the number of states. -/
  | unevenRows
  /-- The initial state is not one of the states. -/
  | unknownInitial
  /-- A minimization contradicts itself. -/
  | defect (d : Defect)
deriving DecidableEq

/-- Why no automaton comes of a draft. -/
inductive Stop
  /-- The draft describes no graph. -/
  | unfit (e : AdaptError)
  /-- The graph describes no automaton. -/
  | rejected (e : ValidationError)
  | broken (f : Fault)
deriving DecidableEq

def Stop.ofDefect (d : Defect) : Stop :=
  .broken (.defect d)

namespace Checked

def entry {α : Type} (l : List α) (i : Nat) : Except Stop α :=
  match l[i]? with
  | some a => .ok a
  | none => .error (.broken .outOfRange)

def assign {α : Type} (l : List α) (i : Nat) (a : α) : Except Stop (List α) :=
  if i < l.length then .ok (l.set i a) else .error (.broken .outOfRange)

def positions {α : Type} (l : List α) (p : α → Bool) : List Nat :=
  (l.zipIdx.filter fun e => p e.1).map Prod.snd

/-- Numbers names in the order in which they are listed. -/
def numbering (names : List String) : KeyedList String Nat :=
  .ofList names.zipIdx

/-- The name with a number, or else the number itself. -/
def nameOf (states : KeyedList String Nat) (q : Nat) : String :=
  match states.entries.find? (·.2 = q) with
  | some e => e.1
  | none => toString q

/-- The alphabet with a symbol added at the end, unless it is there already. -/
def withSymbol (alphabet : List String) (symbol : String) : List String :=
  if symbol ∈ alphabet then alphabet else alphabet ++ [symbol]

/-- For each state the targets by the positions of the symbols. -/
abbrev Rows := List (KeyedList Nat Nat)

/-- Records a move. If a move recorded before leads elsewhere, `clash` says what to stop with. -/
def record (clash : Nat → Stop) (rows : Rows) (source position target : Nat) :
    Except Stop Rows := do
  let row ← entry rows source
  match row.find? position with
  | none => return rows.set source (row.insert position target)
  | some first => if first = target then return rows else throw (clash first)

/-- The tables that make up an automaton. -/
structure Parts where
  states : KeyedList String Nat
  alphabet : List String
  rows : Rows
  accepting : SortedSet Nat
  initial : Nat

def namedMove (alphabet : List String) (m : Nat × Nat) : Except Stop (String × Nat) := do
  let symbol ← entry alphabet m.1
  return (symbol, m.2)

def Parts.state (p : Parts) (q : Nat) (moves : List (String × Nat)) : State where
  name := nameOf p.states q
  accepting := q ∈ p.accepting
  moves := .ofList moves

/-- The automaton that is made up of tables. Positions are resolved here, and afterwards moves are
known by their symbols. -/
def Parts.assemble (p : Parts) : Except Stop Dfa :=
  if p.states.entries.length ≠ p.rows.length then .error (.broken .unevenRows)
  else if p.states.entries.length ≤ p.initial then .error (.broken .unknownInitial)
  else do
    let moves ← p.rows.mapM fun row => row.entries.mapM (namedMove p.alphabet)
    return { states := moves.mapIdx p.state, alphabet := p.alphabet, initial := p.initial }

/-! ### Graphs -/

/-- The tables while edges are read, with the states that are ends of the edges so far. -/
structure Reading where
  alphabet : List String
  rows : Rows
  touched : SortedSet Nat

/-- The report of two moves from one state on one symbol that lead to different states. -/
def clashStop (states : KeyedList String Nat) (source : Nat) (symbol : String)
    (target first : Nat) : Stop :=
  .rejected (.nondeterministic
    ⟨nameOf states source, symbol, nameOf states first, nameOf states target⟩)

def readSymbol (states : KeyedList String Nat) (source target : Nat) (r : Reading)
    (symbol : String) : Except Stop Reading := do
  let alphabet := withSymbol r.alphabet symbol
  let rows ← record (clashStop states source symbol target) r.rows source
    (alphabet.idxOf symbol) target
  return { r with alphabet, rows }

def readEdge (c : Conventions) (states : KeyedList String Nat) (r : Reading) (e : Edge) :
    Except Stop Reading :=
  match states.find? e.source, states.find? e.target with
  | some source, some target =>
    if c.isEpsilonEdge e then .error (.rejected (.epsilon e.source e.target))
    else e.symbols.foldlM (readSymbol states source target)
      { r with touched := (r.touched.insert source).insert target }
  | _, _ => .error (.broken .unknownEnd)

def initial (c : Conventions) (states : KeyedList String Nat) (nodes : List Node) :
    Except Stop Nat :=
  match positions nodes c.isInitial with
  | [] => .error (.rejected .missingInitial)
  | [q] => .ok q
  | several => .error (.rejected (.ambiguousInitial (several.map (nameOf states))))

def checkComplete (states : KeyedList String Nat) (r : Reading) (q : Nat) : Except Stop Unit := do
  let row ← entry r.rows q
  match (List.range r.alphabet.length).find? fun a => !row.contains a with
  | none => return ()
  | some a =>
    let symbol ← entry r.alphabet a
    throw (.rejected (.incomplete (nameOf states q) symbol))

def readParts (c : Conventions) (nodes : List Node) (edges : List Edge) : Except Stop Parts := do
  let states := numbering (nodes.map Node.id)
  let r ← edges.foldlM (readEdge c states)
    ⟨[], List.replicate states.entries.length .empty, .empty⟩
  let q ← initial c states nodes
  r.touched.toList.forM (checkComplete states r)
  return {
    states
    alphabet := r.alphabet
    rows := r.rows
    accepting := .ofList (positions nodes c.isAccepting)
    initial := q }

def read (c : Conventions) (nodes : List Node) (edges : List Edge) : Except Stop Dfa := do
  let parts ← readParts c nodes edges
  parts.assemble

/-! ### Quotients -/

/-- Writes the number of a class at the positions of its members. -/
def enterClass (table : List Nat) (c : Block × Nat) : Except Stop (List Nat) :=
  c.1.toList.foldlM (fun table q => assign table q c.2) table

/-- For each state the number of its class. -/
def classTable (size : Nat) (p : Partition Nat) : Except Stop (List Nat) :=
  p.classes.zipIdx.foldlM enterClass (List.replicate size 0)

def recordClassMove (alphabet : List String) (table : List Nat) (rows : Rows)
    (m : Nat × String × Nat) : Except Stop Rows :=
  match alphabet.idxOf? m.2.1 with
  | none => .ok rows
  | some position => do
    let source ← entry table m.1
    let target ← entry table m.2.2
    record (fun _ => .ofDefect .notCongruent) rows source position target

def quotientParts (d : Dfa) (p : Partition Nat) : Except Stop Parts := do
  let table ← classTable d.size p
  let rows ← d.transitions.foldlM (recordClassMove d.alphabet table)
    (List.replicate p.size .empty)
  let initial ← entry table d.initial
  return {
    states := numbering ((List.range p.size).map fun i => "q" ++ toString i)
    alphabet := d.alphabet
    rows
    accepting := .ofList (positions p.classes fun c => c.toList.any d.isAccepting)
    initial }

def quotient (d : Dfa) (p : Partition Nat) : Except Stop Minimized := do
  let parts ← quotientParts d p
  let automaton ← parts.assemble
  return { automaton, classes := p.classes.map fun c => .ofList (c.toList.filterMap d.name?) }

def minimize (d : Dfa) : Except Stop Minimized := do
  let p ← d.languagePartition.mapError .ofDefect
  quotient d p

end Checked

/-- Minimizes an automaton, what comes of it, and so on. -/
def minimizeTimes {ε : Type} (minimize : Dfa → Except ε Minimized) : Nat → Dfa → Except ε Dfa
  | 0, d => .ok d
  | n + 1, d => do
    let m ← minimize d
    minimizeTimes minimize n m.automaton

/-- Builds a graph, reads an automaton off it, and minimizes that a number of times. -/
def Checked.run (draft : Draft) (c : Conventions) (n : Nat) : Except Stop Dfa := do
  let g ← draft.build.mapError .unfit
  let d ← read c g.nodes g.edges
  minimizeTimes minimize n d

end DrawnModels
