import DrawnModels.Proofs.Automaton.Validated

/-!
# The first fault

Several things can be wrong with a graph at once. What is reported is found by looking at the edges
first, each with only those before it, then at the initial nodes, and last at the moves that are
missing, by nodes and by the order in which the edges mention symbols.
-/

namespace DrawnModels

namespace Graph

/-- A node has an edge on a symbol. -/
def HasMove (g : Graph) (id a : String) : Prop :=
  ∃ e ∈ g.edges, e.source = id ∧ a ∈ e.symbols

def IsEnd (g : Graph) (id : String) : Prop :=
  ∃ e ∈ g.edges, e.source = id ∨ e.target = id

/-- What is wrong with the number of initial nodes. -/
inductive InitialFault (g : Graph) (c : Conventions) : ValidationError → Prop
  | missing (none : ∀ v ∈ g.nodes, c.isInitial v = false) : InitialFault g c .missingInitial
  | ambiguous (several : 2 ≤ (g.nodes.filter c.isInitial).length) :
      InitialFault g c (.ambiguousInitial ((g.nodes.filter c.isInitial).map Node.id))

/-- The first node with an edge that lacks a move, and the symbol mentioned first on which it lacks
one. -/
structure FirstGap (g : Graph) (id a : String) : Prop where
  first_node : ∃ before after, g.ids = before ++ id :: after ∧
    ∀ id' ∈ before, g.IsEnd id' → ∀ e ∈ g.edges, ∀ b ∈ e.symbols, g.HasMove id' b
  isEnd : g.IsEnd id
  first_symbol : ∃ before after, g.edges.flatMap Edge.symbols = before ++ a :: after ∧
    ∀ b ∈ before, g.HasMove id b
  not_hasMove : ¬ g.HasMove id a

/-- The fault of a graph that comes first: of the edges, of the initial nodes if the edges are
faultless, or of the moves if one node is initial as well. -/
inductive FirstFault (g : Graph) (c : Conventions) : ValidationError → Prop
  | edge {before after : List Edge} {e : Edge} {err : ValidationError}
      (edges : g.edges = before ++ e :: after) (faultless : Edge.Faultless c before)
      (fault : e.Fault c before err) : FirstFault g c err
  | initial {err : ValidationError} (faultless : Edge.Faultless c g.edges)
      (fault : g.InitialFault c err) : FirstFault g c err
  | incomplete {id a : String} (faultless : Edge.Faultless c g.edges)
      (initial : ∃! v, v ∈ g.nodes ∧ c.isInitial v = true) (gap : g.FirstGap id a) :
      FirstFault g c (.incomplete id a)

variable {g : Graph} {c : Conventions} {t : MoveTable String} {err : ValidationError}

theorem initial_eq_error_iff : g.initial c = .error err ↔ g.InitialFault c err := by
  have hnone : g.nodes.filter c.isInitial = [] ↔ ∀ v ∈ g.nodes, c.isInitial v = false := by
    simp [List.filter_eq_nil_iff]
  constructor
  · intro h
    rw [initial] at h
    split at h
    case h_1 hnil =>
      cases h
      exact .missing (hnone.mp (List.map_eq_nil_iff.mp hnil))
    case h_2 => cases h
    case h_3 hnil hone =>
      cases h
      refine .ambiguous ?_
      rw [← List.length_map Node.id]
      match hnames : (g.nodes.filter c.isInitial).map Node.id with
      | [] => exact absurd hnames hnil
      | [q] => exact absurd hnames (hone q)
      | _ :: _ :: _ => simp
  · intro h
    cases h with
    | missing none => rw [initial, hnone.mpr none, List.map_nil]
    | ambiguous several =>
      rw [← List.length_map Node.id] at several
      rw [initial]
      split
      case h_1 hnil => simp [hnil] at several
      case h_2 q hone => simp [hone] at several
      case h_3 => rfl

/-- The first symbol on which a node lacks a move. -/
def firstMissing? (g : Graph) (t : MoveTable String) (id : String) : Option String :=
  g.alphabet.find? fun a => !t.contains (id, a)

theorem not_contains_iff (h : t.Holds g.moves) {id a : String} :
    (!t.contains (id, a)) = true ↔ ¬ g.HasMove id a := by
  rw [Bool.not_eq_true', Bool.eq_false_iff, Ne, contains_iff_of_holds h, HasMove]

theorem firstMissing?_eq_none_iff (h : t.Holds g.moves) {id : String} :
    g.firstMissing? t id = none ↔ ∀ e ∈ g.edges, ∀ b ∈ e.symbols, g.HasMove id b := by
  simp only [firstMissing?, List.find?_eq_none, not_contains_iff h, not_not, mem_alphabet]
  constructor
  · intro hall e he b hb
    exact hall b ⟨e, he, hb⟩
  · rintro hall b ⟨e, he, hb⟩
    exact hall e he b hb

theorem firstMissing?_eq_some_iff (h : t.Holds g.moves) {id a : String} :
    g.firstMissing? t id = some a ↔ ¬ g.HasMove id a ∧
      ∃ before after, g.edges.flatMap Edge.symbols = before ++ a :: after ∧
        ∀ b ∈ before, g.HasMove id b := by
  rw [firstMissing?, alphabet, find?_eraseDups, List.find?_eq_some_iff_append]
  simp only [not_contains_iff h, Bool.not_not, contains_iff_of_holds h]
  rfl

theorem firstGap?_eq (g : Graph) (t : MoveTable String) :
    g.firstGap? t = g.ids.findSome? fun q =>
      if g.isTouched q then (g.firstMissing? t q).map fun a => (q, a) else none :=
  findSome?_filter g.ids g.isTouched _

theorem firstGap?_eq_some_iff (h : t.Holds g.moves) {id a : String} :
    g.firstGap? t = some (id, a) ↔ g.FirstGap id a := by
  rw [firstGap?_eq, List.findSome?_eq_some_iff]
  simp only [Option.ite_none_right_eq_some, Option.map_eq_some_iff, ite_eq_right_iff,
    Option.map_eq_none_iff, firstMissing?_eq_none_iff h, firstMissing?_eq_some_iff h,
    isTouched_iff]
  constructor
  · rintro ⟨before, q, after, hids, ⟨hend, b, ⟨hnot, hsymbols⟩, heq⟩, hbefore⟩
    cases heq
    exact ⟨⟨before, after, hids, hbefore⟩, hend, hsymbols, hnot⟩
  · intro hgap
    obtain ⟨before, after, hids, hbefore⟩ := hgap.first_node
    exact ⟨before, id, after, hids,
      ⟨hgap.isEnd, a, ⟨hgap.not_hasMove, hgap.first_symbol⟩, rfl⟩, hbefore⟩

theorem toDfa_error_cases :
    g.toDfa c = .error err ↔ g.moveTable c = .error err ∨ ∃ t, g.moveTable c = .ok t ∧
      (g.initial c = .error err ∨ ∃ q, g.initial c = .ok q ∧
        ∃ id a, g.firstGap? t = some (id, a) ∧ err = .incomplete id a) := by
  unfold toDfa
  cases g.moveTable c with
  | error err' => simp [bind, Except.bind]
  | ok t =>
    cases g.initial c with
    | error err' => simp [bind, Except.bind]
    | ok q =>
      cases hgap : g.firstGap? t with
      | none => simp [bind, Except.bind, hgap]
      | some gap => simp [bind, Except.bind, hgap, Prod.ext_iff, eq_comm]

/-- A graph is rejected for the fault that comes first. -/
theorem toDfa_eq_error_iff (g : Graph) (c : Conventions) (err : ValidationError) :
    g.toDfa c = .error err ↔ g.FirstFault c err := by
  rw [toDfa_error_cases]
  constructor
  · rintro (hmoves | ⟨t, hmoves, hrest⟩)
    · obtain ⟨before, e, after, hedges, hfaultless, hfault⟩ := moveTable_eq_error_iff.mp hmoves
      exact .edge hedges hfaultless hfault
    · have hfaultless := exists_moveTable_iff_faultless.mp ⟨t, hmoves⟩
      rcases hrest with hinitial | ⟨q, hinitial, id, a, hgap, rfl⟩
      · exact .initial hfaultless (initial_eq_error_iff.mp hinitial)
      · exact .incomplete hfaultless (exists_initial_iff.mp ⟨q, hinitial⟩)
          ((firstGap?_eq_some_iff (holds_moveTable hmoves)).mp hgap)
  · intro h
    cases h with
    | edge edges faultless fault =>
      exact Or.inl (moveTable_eq_error_iff.mpr ⟨_, _, _, edges, faultless, fault⟩)
    | initial faultless fault =>
      obtain ⟨t, hmoves⟩ := exists_moveTable_iff_faultless.mpr faultless
      exact Or.inr ⟨t, hmoves, Or.inl (initial_eq_error_iff.mpr fault)⟩
    | incomplete faultless initial gap =>
      obtain ⟨t, hmoves⟩ := exists_moveTable_iff_faultless.mpr faultless
      obtain ⟨q, hinitial⟩ := exists_initial_iff.mpr initial
      have hgap := (firstGap?_eq_some_iff (holds_moveTable hmoves)).mpr gap
      exact Or.inr ⟨t, hmoves, Or.inr ⟨q, hinitial, _, _, hgap, rfl⟩⟩

end Graph

end DrawnModels
