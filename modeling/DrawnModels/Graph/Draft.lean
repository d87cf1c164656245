import DrawnModels.Graph.Basic

/-!
# Drafts of graphs

A draft is the list of node and edge records from which a graph is made, in the order in which
they were written down. It may declare a node twice, and its edges may run between nodes that are
not declared.

`Draft.build` takes the declared nodes first and then the ends of the edges, each edge from its
source to its target, and fails at the first record that does not fit.
-/

namespace DrawnModels

inductive AdaptError
  /-- A node or an end of an edge has an empty identifier. -/
  | emptyIdentifier
  /-- A node is declared a second time with other attributes. -/
  | conflictingDeclaration (id : String)
deriving DecidableEq

namespace AdaptError

def message : AdaptError → String
  | emptyIdentifier => "encountered node with empty identifier"
  | conflictingDeclaration id =>
    "node \"" ++ id ++ "\" is declared more than once with conflicting attributes"

end AdaptError

structure Draft where
  nodes : List Node
  edges : List Edge
deriving DecidableEq

namespace Draft

def empty : Draft :=
  ⟨[], []⟩

def node (d : Draft) (id : String) (attributes : List (String × String)) : Draft :=
  { d with nodes := d.nodes ++ [⟨id, .ofList attributes⟩] }

def shapedNodes (d : Draft) (nodes : List (String × String)) : Draft :=
  nodes.foldl (fun d n => d.node n.1 [("shape", n.2)]) d

def edgeWith (d : Draft) (source target : String) (attributes : List (String × String)) : Draft :=
  { d with edges := d.edges ++ [⟨source, target, .ofList attributes⟩] }

def edge (d : Draft) (source label target : String) : Draft :=
  d.edgeWith source target [("label", label)]

def labelledEdges (d : Draft) (edges : List (String × String × String)) : Draft :=
  edges.foldl (fun d e => d.edge e.1 e.2.1 e.2.2) d

/-- Adds edges without attributes. -/
def arcs (d : Draft) (arcs : List (String × String)) : Draft :=
  arcs.foldl (fun d a => d.edgeWith a.1 a.2 []) d

/-- Adds a declared node to the nodes. A repeated declaration has to agree with the first. -/
def declare (table : KeyedList String Attributes) (n : Node) :
    Except AdaptError (KeyedList String Attributes) :=
  if Text.trim n.id = "" then .error .emptyIdentifier
  else
    match table.find? n.id with
    | none => .ok (table.insert n.id n.attributes)
    | some first =>
      if first.agrees n.attributes then .ok table else .error (.conflictingDeclaration n.id)

/-- Adds the end of an edge to the nodes, unless it is one of them. -/
def mention (table : KeyedList String Attributes) (id : String) :
    Except AdaptError (KeyedList String Attributes) :=
  if Text.trim id = "" then .error .emptyIdentifier
  else if table.contains id then .ok table
  else .ok (table.insert id .empty)

/-- The ends of the edges, the source of each before its target. -/
def ends (edges : List Edge) : List String :=
  edges.flatMap fun e => [e.source, e.target]

theorem mem_keys_of_mention {table t : KeyedList String Attributes} {id : String}
    (h : mention table id = .ok t) (j : String) : j ∈ t.keys ↔ j = id ∨ j ∈ table.keys := by
  unfold mention at h
  split at h
  · cases h
  · split at h
    · rename_i hc
      cases h
      rw [KeyedList.contains_iff] at hc
      exact ⟨Or.inr, fun e => e.elim (fun e => e ▸ hc) (·)⟩
    · cases h
      exact KeyedList.mem_keys_insert _ _ _ _

theorem mem_keys_of_foldlM_mention {ids : List String} {table t : KeyedList String Attributes}
    (h : ids.foldlM mention table = .ok t) (j : String) :
    j ∈ t.keys ↔ j ∈ ids ∨ j ∈ table.keys := by
  induction ids generalizing table with
  | nil => cases h; simp
  | cons id ids ih =>
    rw [List.foldlM_cons] at h
    cases hm : mention table id with
    | error e => rw [hm] at h; cases h
    | ok t' =>
      rw [hm] at h
      rw [ih h, mem_keys_of_mention hm, List.mem_cons, or_left_comm, or_assoc]

def build (d : Draft) : Except AdaptError Graph :=
  match d.nodes.foldlM declare .empty with
  | .error e => .error e
  | .ok declared =>
    match h : (ends d.edges).foldlM mention declared with
    | .error e => .error e
    | .ok table =>
      .ok {
        table
        edges := d.edges
        source_mem := fun e he => (mem_keys_of_foldlM_mention h _).mpr
          (Or.inl (List.mem_flatMap.mpr ⟨e, he, by simp⟩))
        target_mem := fun e he => (mem_keys_of_foldlM_mention h _).mpr
          (Or.inl (List.mem_flatMap.mpr ⟨e, he, by simp⟩)) }

end Draft

end DrawnModels
