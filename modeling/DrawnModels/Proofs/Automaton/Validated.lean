import DrawnModels.Proofs.Automaton.Behaviour
import DrawnModels.Proofs.Automaton.EdgeFaults
import DrawnModels.Proofs.Graph.Nodes

/-!
# Graphs that describe automata

A graph describes an automaton if and only if no edge stands for the empty word, no node has edges
on one symbol to different nodes, one node is initial, and every node with an edge has edges on all
symbols. The automaton then has the nodes for states and moves where there are edges.
-/

namespace DrawnModels

/-- The automaton has the nodes of a graph for states, and moves where there are edges. -/
structure Dfa.IsDrawnBy (d : Dfa) (g : Graph) (c : Conventions) : Prop where
  names : d.names = g.ids
  mem_alphabet : ∀ a, a ∈ d.alphabet ↔ ∃ e ∈ g.edges, a ∈ e.symbols
  /-- The symbols stand in the order in which the edges mention them first. -/
  alphabet_order : d.alphabet.Pairwise fun a b =>
    (g.edges.flatMap Edge.symbols).idxOf a < (g.edges.flatMap Edge.symbols).idxOf b
  successor? : ∀ q a p, d.successor? q a = some p ↔
    ∃ e ∈ g.edges, g.ids[q]? = some e.source ∧ a ∈ e.symbols ∧ g.ids[p]? = some e.target
  isAccepting : ∀ q, d.isAccepting q = true ↔
    ∃ n, g.nodes[q]? = some n ∧ c.isAccepting n = true
  initial : ∀ q, q = d.initial ↔ ∃ n, g.nodes[q]? = some n ∧ c.isInitial n = true

namespace Graph

variable {g : Graph} {c : Conventions} {t : MoveTable String}

/-! ### Moves -/

/-- The edges are read if none stands for the empty word and their moves are deterministic. -/
theorem exists_moveTable_iff :
    (∃ t, g.moveTable c = .ok t) ↔
      (∀ e ∈ g.edges, c.isEpsilonEdge e = false) ∧ MoveTable.Deterministic g.moves := by
  constructor
  · rintro ⟨t, ht⟩
    refine ⟨fun e he => ?_, (holds_moveTable ht).deterministic⟩
    obtain ⟨before, after, hedges⟩ := List.append_of_mem he
    have hnot := exists_moveTable_iff_faultless.mp ⟨t, ht⟩ before e after hedges
    rw [Bool.eq_false_iff, Ne, Edge.isEpsilonEdge_iff]
    exact fun hepsilon => hnot (Or.inl hepsilon)
  · rintro ⟨heps, hdet⟩
    refine exists_moveTable_iff_faultless.mpr fun before e after hedges hfaulty => ?_
    have he : e ∈ g.edges := by simp [hedges]
    rcases hfaulty with hepsilon | ⟨a, ha, f, hf, hsource, haf, htarget⟩
    · have := Edge.isEpsilonEdge_iff.mpr hepsilon
      rw [heps e he] at this
      cases this
    · have hf : f ∈ g.edges := by simp [hedges, hf]
      exact htarget (hdet e.source a f.target e.target (mem_moves.mpr ⟨f, hf, hsource, haf, rfl⟩)
        (mem_moves.mpr ⟨e, he, rfl, ha, rfl⟩))

/-! ### Nodes -/

theorem initial_eq_ok_iff {id : String} :
    g.initial c = .ok id ↔
      ∃ n, n.id = id ∧ ∀ m, (m ∈ g.nodes ∧ c.isInitial m = true) ↔ m = n := by
  have hsingle : g.initial c = .ok id ↔ (g.nodes.filter c.isInitial).map Node.id = [id] := by
    unfold initial
    split
    · rename_i heq
      simp [heq]
    · rename_i heq
      simp [heq]
    · rename_i hone
      exact ⟨(fun h => nomatch h), fun h => absurd h (hone id)⟩
  rw [hsingle, List.map_eq_singleton_iff]
  refine exists_congr fun n => and_comm.trans (and_congr_right fun _ => ?_)
  rw [← List.perm_singleton,
    List.perm_ext_iff_of_nodup (g.nodup_nodes.filter _) (List.nodup_singleton n)]
  simp only [List.mem_filter, List.mem_singleton]

theorem exists_initial_iff :
    (∃ id, g.initial c = .ok id) ↔ ∃! n, n ∈ g.nodes ∧ c.isInitial n = true := by
  simp only [initial_eq_ok_iff]
  constructor
  · rintro ⟨_, n, -, hn⟩
    exact ⟨n, (hn n).mpr rfl, fun m hm => (hn m).mp hm⟩
  · rintro ⟨n, hn, huniq⟩
    exact ⟨n.id, n, rfl, fun m => ⟨huniq m, fun h => h ▸ hn⟩⟩

theorem isTouched_iff {id : String} :
    g.isTouched id = true ↔ ∃ e ∈ g.edges, e.source = id ∨ e.target = id := by
  simp [isTouched]

theorem mem_alphabet {a : String} : a ∈ g.alphabet ↔ ∃ e ∈ g.edges, a ∈ e.symbols := by
  simp [alphabet]

theorem firstGap?_eq_none_iff :
    g.firstGap? t = none ↔
      ∀ q ∈ g.ids, g.isTouched q = true → ∀ a ∈ g.alphabet, t.contains (q, a) = true := by
  simp only [firstGap?, List.findSome?_eq_none_iff, List.mem_filter, Option.map_eq_none_iff,
    List.find?_eq_none, and_imp, Bool.not_eq_true', Bool.not_eq_false]

/-! ### Automata -/

theorem toDfa_eq_ok_iff {d : Dfa} :
    g.toDfa c = .ok d ↔
      ∃ t q, g.moveTable c = .ok t ∧ g.initial c = .ok q ∧ g.firstGap? t = none ∧
        d = { states := g.nodes.map (g.toState c t), alphabet := g.alphabet,
              initial := g.indexOf q } := by
  unfold toDfa
  cases g.moveTable c with
  | error err => simp [bind, Except.bind]
  | ok t =>
    cases g.initial c with
    | error err => simp [bind, Except.bind]
    | ok q =>
      cases hgap : g.firstGap? t with
      | none => simp [bind, Except.bind, hgap, eq_comm]
      | some gap => simp [bind, Except.bind, hgap]

/-- What a graph has to fulfil to describe an automaton. -/
structure DrawsDfa (g : Graph) (c : Conventions) : Prop where
  noEpsilon : ∀ e ∈ g.edges, e.label ≠ c.epsilon ∧ ∀ a ∈ e.symbols, a ≠ c.epsilon
  deterministic : ∀ e ∈ g.edges, ∀ f ∈ g.edges, e.source = f.source →
    ∀ a, a ∈ e.symbols → a ∈ f.symbols → e.target = f.target
  initial : ∃! n, n ∈ g.nodes ∧ c.isInitial n = true
  complete : ∀ e ∈ g.edges, ∀ id, e.source = id ∨ e.target = id → ∀ f ∈ g.edges, ∀ a ∈ f.symbols,
    ∃ e' ∈ g.edges, e'.source = id ∧ a ∈ e'.symbols

theorem isEpsilonEdge_eq_false_iff {e : Edge} :
    c.isEpsilonEdge e = false ↔ e.label ≠ c.epsilon ∧ ∀ a ∈ e.symbols, a ≠ c.epsilon := by
  simp [Conventions.isEpsilonEdge, Conventions.isEpsilon]

theorem deterministic_moves_iff :
    MoveTable.Deterministic g.moves ↔
      ∀ e ∈ g.edges, ∀ f ∈ g.edges, e.source = f.source →
        ∀ a, a ∈ e.symbols → a ∈ f.symbols → e.target = f.target := by
  constructor
  · intro h e he f hf hsource a hae haf
    exact h e.source a e.target f.target (mem_moves.mpr ⟨e, he, rfl, hae, rfl⟩)
      (mem_moves.mpr ⟨f, hf, hsource.symm, haf, rfl⟩)
  · intro h s a p q hp hq
    obtain ⟨e, he, rfl, hae, rfl⟩ := mem_moves.mp hp
    obtain ⟨f, hf, hsource, haf, rfl⟩ := mem_moves.mp hq
    exact h e he f hf hsource.symm a hae haf

theorem contains_iff_of_holds (h : t.Holds g.moves) {q a : String} :
    t.contains (q, a) = true ↔ ∃ e ∈ g.edges, e.source = q ∧ a ∈ e.symbols := by
  rw [KeyedList.contains, Option.isSome_iff_exists]
  simp only [h q a, mem_moves]
  constructor
  · rintro ⟨_, e, he, hsource, ha, -⟩
    exact ⟨e, he, hsource, ha⟩
  · rintro ⟨e, he, hsource, ha⟩
    exact ⟨e.target, e, he, hsource, ha, rfl⟩

theorem firstGap?_eq_none_iff_of_holds (h : t.Holds g.moves) :
    g.firstGap? t = none ↔ ∀ e ∈ g.edges, ∀ id, e.source = id ∨ e.target = id →
      ∀ f ∈ g.edges, ∀ a ∈ f.symbols, ∃ e' ∈ g.edges, e'.source = id ∧ a ∈ e'.symbols := by
  simp only [firstGap?_eq_none_iff, contains_iff_of_holds h, isTouched_iff, mem_alphabet]
  constructor
  · intro hall e he id hid f hf a ha
    have hmem : id ∈ g.ids := by
      rcases hid with rfl | rfl
      · exact g.source_mem e he
      · exact g.target_mem e he
    exact hall id hmem ⟨e, he, hid⟩ a ⟨f, hf, ha⟩
  · rintro hall id - ⟨e, he, hid⟩ a ⟨f, hf, ha⟩
    exact hall e he id hid f hf a ha

/-- A graph is accepted if and only if it describes an automaton. -/
theorem exists_toDfa_iff : (∃ d, g.toDfa c = .ok d) ↔ g.DrawsDfa c := by
  simp only [toDfa_eq_ok_iff]
  constructor
  · rintro ⟨_, t, q, ht, hq, hgap, -⟩
    have hholds := holds_moveTable ht
    obtain ⟨heps, hdet⟩ := exists_moveTable_iff.mp ⟨t, ht⟩
    exact ⟨fun e he => isEpsilonEdge_eq_false_iff.mp (heps e he), deterministic_moves_iff.mp hdet,
      exists_initial_iff.mp ⟨q, hq⟩, (firstGap?_eq_none_iff_of_holds hholds).mp hgap⟩
  · intro h
    obtain ⟨t, ht⟩ := exists_moveTable_iff.mpr
      ⟨fun e he => isEpsilonEdge_eq_false_iff.mpr (h.noEpsilon e he),
        deterministic_moves_iff.mpr h.deterministic⟩
    obtain ⟨q, hq⟩ := exists_initial_iff.mpr h.initial
    have hgap := (firstGap?_eq_none_iff_of_holds (holds_moveTable ht)).mpr h.complete
    exact ⟨_, t, q, ht, hq, hgap, rfl⟩

theorem getElem?_states {d : Dfa} (h : g.toDfa c = .ok d) :
    ∃ t : MoveTable String, t.Holds g.moves ∧
      ∀ q : Nat, d.states[q]? = g.nodes[q]?.map (g.toState c t) := by
  obtain ⟨t, -, ht, -, -, rfl⟩ := toDfa_eq_ok_iff.mp h
  exact ⟨t, holds_moveTable ht, fun q => List.getElem?_map⟩

theorem successor?_eq_some_iff {d : Dfa} (h : g.toDfa c = .ok d) {q p : Nat} {a : String} :
    d.successor? q a = some p ↔
      ∃ e ∈ g.edges, g.ids[q]? = some e.source ∧ a ∈ e.symbols ∧ g.ids[p]? = some e.target := by
  obtain ⟨t, ht, hstates⟩ := getElem?_states h
  have hsucc : d.successor? q a =
      g.nodes[q]?.bind fun n => (t.find? (n.id, a)).map g.indexOf := by
    simp only [Dfa.successor?, hstates, Option.bind_map, Function.comp_def, toState,
      MoveTable.find?_ofList_movesOf]
  rw [hsucc, Option.bind_eq_some_iff]
  constructor
  · rintro ⟨n, hn, hp⟩
    obtain ⟨id, hid, rfl⟩ := Option.map_eq_some_iff.mp hp
    obtain ⟨e, he, hsource, ha, rfl⟩ := mem_moves.mp ((ht _ _ _).mp hid)
    refine ⟨e, he, by rw [getElem?_ids, hn, hsource, Option.map_some], ha, ?_⟩
    exact getElem?_indexOf (g.target_mem e he)
  · rintro ⟨e, he, hq, ha, hp⟩
    rw [getElem?_ids] at hq
    obtain ⟨n, hn, hid⟩ := Option.map_eq_some_iff.mp hq
    refine ⟨n, hn, Option.map_eq_some_iff.mpr ⟨e.target, ?_, ?_⟩⟩
    · exact (ht _ _ _).mpr (mem_moves.mpr ⟨e, he, hid.symm, ha, rfl⟩)
    · exact (indexOf_eq_iff (g.target_mem e he)).mpr hp

theorem isAccepting_eq_true_iff {d : Dfa} (h : g.toDfa c = .ok d) {q : Nat} :
    d.isAccepting q = true ↔ ∃ n, g.nodes[q]? = some n ∧ c.isAccepting n = true := by
  obtain ⟨t, -, hstates⟩ := getElem?_states h
  rw [Dfa.isAccepting, hstates]
  cases g.nodes[q]? <;> simp [toState]

theorem eq_initial_iff {d : Dfa} (h : g.toDfa c = .ok d) {q : Nat} :
    q = d.initial ↔ ∃ n, g.nodes[q]? = some n ∧ c.isInitial n = true := by
  obtain ⟨t, id, -, hid, -, rfl⟩ := toDfa_eq_ok_iff.mp h
  obtain ⟨n, rfl, hn⟩ := initial_eq_ok_iff.mp hid
  obtain ⟨hmem, hinitial⟩ := (hn n).mpr rfl
  have hid : n.id ∈ g.ids := g.map_id_nodes ▸ List.mem_map_of_mem hmem
  rw [eq_comm, indexOf_eq_iff hid, getElem?_ids, Option.map_eq_some_iff]
  apply exists_congr
  intro m
  apply and_congr_right
  intro hm
  have hm := List.mem_of_getElem? hm
  constructor
  · intro hsame
    rwa [eq_of_id hm hmem hsame]
  · intro hm'
    rw [(hn m).mp ⟨hm, hm'⟩]

theorem isDrawnBy_of_toDfa {d : Dfa} (h : g.toDfa c = .ok d) : d.IsDrawnBy g c where
  names := by
    obtain ⟨t, -, -, -, -, rfl⟩ := toDfa_eq_ok_iff.mp h
    rw [← map_id_nodes, Dfa.names, List.map_map]
    rfl
  mem_alphabet a := by
    obtain ⟨t, -, -, -, -, rfl⟩ := toDfa_eq_ok_iff.mp h
    exact mem_alphabet
  alphabet_order := by
    obtain ⟨t, -, -, -, -, rfl⟩ := toDfa_eq_ok_iff.mp h
    exact pairwise_idxOf_eraseDups _
  successor? _ _ _ := successor?_eq_some_iff h
  isAccepting _ := isAccepting_eq_true_iff h
  initial _ := eq_initial_iff h

/-- Accepted are the graphs that describe automata, and what comes of them are the automata that
they draw. -/
theorem exists_toDfa_iff_and_isDrawnBy (g : Graph) (c : Conventions) :
    ((∃ d, g.toDfa c = .ok d) ↔ g.DrawsDfa c) ∧ ∀ d, g.toDfa c = .ok d → d.IsDrawnBy g c :=
  ⟨exists_toDfa_iff, fun _ h => isDrawnBy_of_toDfa h⟩

/-- The node `A` moves to the accepting sinks `B` and `C`, and no edge touches `D`. -/
def twoSinks : Graph where
  table := .ofList [("A", .ofList [("style", "bold")]), ("B", .ofList [("shape", "doublecircle")]),
    ("C", .ofList [("shape", "doublecircle")]), ("D", .empty)]
  edges := [⟨"A", "B", .ofList [("label", "0")]⟩, ⟨"A", "C", .ofList [("label", "1")]⟩,
    ⟨"B", "B", .ofList [("label", "0,1")]⟩, ⟨"C", "C", .ofList [("label", "0,1")]⟩]
  source_mem := by decide
  target_mem := by decide

theorem isDrawnBy_twoSinks :
    twoSinks.DrawsDfa {} ∧ ∃ d, twoSinks.toDfa {} = .ok d ∧ d.IsDrawnBy twoSinks {} := by
  obtain ⟨hiff, hdrawn⟩ := exists_toDfa_iff_and_isDrawnBy twoSinks {}
  have hok : (twoSinks.toDfa {}).isOk = true := by decide +kernel
  cases hd : twoSinks.toDfa {} with
  | error err =>
    rw [hd] at hok
    cases hok
  | ok d => exact ⟨hiff.mp ⟨d, hd⟩, d, rfl, hdrawn d hd⟩

theorem size_of_toDfa {d : Dfa} (h : g.toDfa c = .ok d) : d.size = g.ids.length := by
  rw [← (isDrawnBy_of_toDfa h).names, Dfa.names, List.length_map, Dfa.size]

theorem isClosed_of_toDfa {d : Dfa} (h : g.toDfa c = .ok d) : d.IsClosed := by
  intro q a p hp
  obtain ⟨e, -, -, -, htarget⟩ := (successor?_eq_some_iff h).mp hp
  rw [size_of_toDfa h]
  exact (List.getElem?_eq_some_iff.mp htarget).1

theorem isCompleteAt_of_toDfa {d : Dfa} (h : g.toDfa c = .ok d) {q : Nat} {e : Edge}
    (he : e ∈ g.edges) (hq : g.ids[q]? = some e.source ∨ g.ids[q]? = some e.target) :
    d.IsCompleteAt q := by
  intro a ha
  obtain ⟨f, hf, haf⟩ := ((isDrawnBy_of_toDfa h).mem_alphabet a).mp ha
  have hcomplete := (exists_toDfa_iff.mp ⟨d, h⟩).complete
  obtain ⟨e', he', hsource, hae'⟩ :
      ∃ e' ∈ g.edges, g.ids[q]? = some e'.source ∧ a ∈ e'.symbols := by
    rcases hq with hq | hq
    · obtain ⟨e', he', hsource, hae'⟩ := hcomplete e he e.source (Or.inl rfl) f hf a haf
      exact ⟨e', he', hsource ▸ hq, hae'⟩
    · obtain ⟨e', he', hsource, hae'⟩ := hcomplete e he e.target (Or.inr rfl) f hf a haf
      exact ⟨e', he', hsource ▸ hq, hae'⟩
  obtain ⟨p, hp⟩ := List.mem_iff_getElem?.mp (g.target_mem e' he')
  exact ⟨p, (successor?_eq_some_iff h).mpr ⟨e', he', hsource, hae', hp⟩⟩

theorem isWellFormed_of_toDfa {d : Dfa} (h : g.toDfa c = .ok d) : d.IsWellFormed where
  isClosed := isClosed_of_toDfa h
  mem_alphabet q a p hp := by
    obtain ⟨e, he, -, ha, -⟩ := (successor?_eq_some_iff h).mp hp
    exact ((isDrawnBy_of_toDfa h).mem_alphabet a).mpr ⟨e, he, ha⟩
  nodup_names := by
    rw [(isDrawnBy_of_toDfa h).names]
    exact g.table.keys_nodup
  initial_lt := by
    obtain ⟨n, hn, -⟩ := (eq_initial_iff h).mp rfl
    rw [size_of_toDfa h, ← map_id_nodes, List.length_map]
    exact (List.getElem?_eq_some_iff.mp hn).1
  isCompleteAt q a p hp := by
    obtain ⟨e, he, hsource, -, htarget⟩ := (successor?_eq_some_iff h).mp hp
    exact ⟨isCompleteAt_of_toDfa h he (Or.inl hsource), isCompleteAt_of_toDfa h he (Or.inr htarget)⟩

end Graph

end DrawnModels
