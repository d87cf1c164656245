import DrawnModels.Petri.Marking

/-!
# Coverability trees

The nodes of a coverability tree carry markings and are numbered in the order in which they were
added. Every node but the root names the node it came from and the transition that fired there, and
every node lists the nodes that came from it.

Which markings the tree has visited is recorded beside the nodes, so that a marking is looked up
without going through them.
-/

namespace DrawnModels

namespace Coverability

inductive Kind
  /-- The marking was new, and its successors were looked for. -/
  | explored
  /-- The marking was in the tree already. -/
  | revisited
deriving DecidableEq

/-- Where a node comes from. -/
structure Origin where
  node : Nat
  transition : Nat
deriving DecidableEq

/-- What a node is added with. -/
structure Entry (cap : Capacity) where
  marking : Marking cap
  kind : Kind
  origin : Option Origin
deriving DecidableEq

structure Node (cap : Capacity) extends Entry cap where
  /-- The nodes that come from it, in the order in which they were added. -/
  children : List Nat
deriving DecidableEq

structure Tree (cap : Capacity) where
  /-- The names of the places that the markings mark. -/
  places : List String
  /-- The names of the transitions by number. -/
  transitions : List String
  nodes : Array (Node cap)
  visited : SortedSet (Marking cap)
deriving DecidableEq

variable {cap : Capacity}

def Node.addChild (k : Node cap) (child : Nat) : Node cap :=
  { k with children := k.children ++ [child] }

namespace Tree

def empty (n : Net) : Tree cap :=
  ⟨n.placeNames, n.transitionNames, #[], .empty⟩

def size (t : Tree cap) : Nat :=
  t.nodes.size

/-- The nodes after the one that a new node comes from has recorded it. -/
def adopting (t : Tree cap) : Option Origin → Array (Node cap)
  | none => t.nodes
  | some o => t.nodes.modify o.node (·.addChild t.size)

/-- Adds a node that comes from one of the nodes that are there. -/
def push (t : Tree cap) (e : Entry cap) (_ : ∀ o ∈ e.origin, o.node < t.size) : Tree cap :=
  { t with nodes := (t.adopting e.origin).push ⟨e, []⟩ }

theorem size_adopting (t : Tree cap) (origin : Option Origin) :
    (t.adopting origin).size = t.size := by
  cases origin with
  | none => rfl
  | some o => exact Array.size_modify

@[simp] theorem size_push (t : Tree cap) (e : Entry cap) (h : ∀ o ∈ e.origin, o.node < t.size) :
    (t.push e h).size = t.size + 1 := by
  rw [push, size, Array.size_push, size_adopting]

def visit (t : Tree cap) (m : Marking cap) : Tree cap :=
  { t with visited := t.visited.insert m }

@[simp] theorem size_visit (t : Tree cap) (m : Marking cap) : (t.visit m).size = t.size := rfl

def node? (t : Tree cap) (id : Nat) : Option (Node cap) :=
  t.nodes[id]?

/-- The number of the node that the tree starts from. -/
def root (_ : Tree cap) : Nat := 0

/-- The node and the transition that a node comes from. -/
def origin? (t : Tree cap) (id : Nat) : Option Origin :=
  (t.node? id).bind (·.origin)

/-- The nodes that are recorded as coming from a node. -/
def children (t : Tree cap) (id : Nat) : List Nat :=
  match t.node? id with
  | some k => k.children
  | none => []

def isRevisited (t : Tree cap) (id : Nat) : Bool :=
  (t.node? id).any fun n => n.kind = .revisited

/-- The nodes whose marking was in the tree already. -/
def revisits (t : Tree cap) : List Nat :=
  (List.range t.size).filter t.isRevisited

/-- The nodes whose marking was new. -/
def explored (t : Tree cap) : List Nat :=
  (List.range t.size).filter fun id => !t.isRevisited id

def markings (t : Tree cap) : List (Marking cap) :=
  t.nodes.toList.map (·.marking)

def distinctMarkings (t : Tree cap) : SortedSet (Marking cap) :=
  .ofList t.markings

/-- Whether the tree has visited a marking. -/
def contains (t : Tree cap) (m : Marking cap) : Bool :=
  m ∈ t.visited

theorem contains_push (t : Tree cap) (e : Entry cap) (h : ∀ o ∈ e.origin, o.node < t.size)
    (m : Marking cap) : (t.push e h).contains m = t.contains m := rfl

theorem contains_visit {t : Tree cap} {m m' : Marking cap} :
    (t.visit m').contains m = true ↔ m = m' ∨ t.contains m = true := by
  simp only [contains, visit, decide_eq_true_iff, SortedSet.mem_insert]

/-- Whether no marking in the tree has ω. -/
def isBounded (t : Tree cap) : Bool :=
  !t.markings.any Marking.hasOmega

/-- Whether a place has ω in some marking of the tree. -/
def isUnboundedAt (t : Tree cap) (place : Nat) : Bool :=
  t.markings.any fun m => (m.get place).isOmega

def unboundedPlaces (t : Tree cap) : List String :=
  ((List.range t.places.length).filter t.isUnboundedAt).filterMap (t.places[·]?)

def transitionName? (t : Tree cap) (transition : Nat) : Option String :=
  t.transitions[transition]?

def label (t : Tree cap) (id : Nat) (separator : String) : String :=
  match t.node? id with
  | some n => n.marking.labelled t.places separator
  | none => ""

/-- Takes nodes from a stack until it is empty, and notes them in this order. The children of a node
that is taken go on top of the others, the first child uppermost. -/
def unstack? (t : Tree cap) (order : Array (Nat × Nat)) :
    List (Nat × Nat) → Option (Array (Nat × Nat))
  | [] => some order
  | (depth, id) :: stack =>
    t |>.unstack? (order.push (depth, id)) ((t.children id).map (depth + 1, ·) ++ stack)
partial_fixpoint

/-- All nodes with their depths, from the root downwards, if the stack runs empty. -/
def depthFirst? (t : Tree cap) : Option (List (Nat × Nat)) :=
  (t.unstack? #[] (if t.size = 0 then [] else [(0, t.root)])).map Array.toList

def depthFirst (t : Tree cap) : List (Nat × Nat) :=
  t.depthFirst?.getD []

end Tree

end Coverability

end DrawnModels
