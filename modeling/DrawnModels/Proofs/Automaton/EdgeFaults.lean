import DrawnModels.Automaton.OfGraph
import DrawnModels.Proofs.Automaton.Moves
import DrawnModels.Proofs.Collection.Folds
import DrawnModels.Proofs.Collection.Occurrences

/-!
# Faults of edges

An edge of a graph is judged by the edges before it, without the table that is filled along the way.
It is faulty if it stands for the empty word, or if an edge before it leads from the same node on
the same symbol elsewhere. Edges are read up to the first faulty one, and what is reported then is
what is wrong with it.
-/

namespace DrawnModels

variable {c : Conventions}

namespace Edge

def moves (e : Edge) : List (String × String × String) :=
  e.symbols.map fun a => (e.source, a, e.target)

theorem mem_moves {e : Edge} {s a p : String} :
    (s, a, p) ∈ e.moves ↔ e.source = s ∧ a ∈ e.symbols ∧ e.target = p := by
  simp only [moves, List.mem_map, Prod.mk.injEq]
  constructor
  · rintro ⟨_, ha, rfl, rfl, rfl⟩
    exact ⟨rfl, ha, rfl⟩
  · rintro ⟨rfl, ha, rfl⟩
    exact ⟨a, ha, rfl, rfl, rfl⟩

/-- The edge stands for the empty word, by its whole label or by one of its symbols. -/
def IsEpsilon (c : Conventions) (e : Edge) : Prop :=
  e.label = c.epsilon ∨ c.epsilon ∈ e.symbols

theorem isEpsilonEdge_iff {e : Edge} : c.isEpsilonEdge e = true ↔ e.IsEpsilon c := by
  simp [Conventions.isEpsilonEdge, Conventions.isEpsilon, IsEpsilon]

/-- One of the edges before leads from the same node on a symbol to another node. -/
def ConflictsOn (before : List Edge) (e : Edge) (a : String) : Prop :=
  ∃ f ∈ before, f.source = e.source ∧ a ∈ f.symbols ∧ f.target ≠ e.target

def IsFaulty (c : Conventions) (before : List Edge) (e : Edge) : Prop :=
  e.IsEpsilon c ∨ ∃ a ∈ e.symbols, e.ConflictsOn before a

/-- What is wrong with an edge that comes after other edges. A conflict is on the first symbol for
which there is one, and with the first edge that has this symbol. -/
inductive Fault (c : Conventions) (before : List Edge) (e : Edge) : ValidationError → Prop
  | epsilon (epsilon : e.IsEpsilon c) : Fault c before e (.epsilon e.source e.target)
  | nondeterministic {fine rest : List String} {a : String} {earlier later : List Edge} {f : Edge}
      (not_epsilon : ¬ e.IsEpsilon c) (symbols : e.symbols = fine ++ a :: rest)
      (first_symbol : ∀ b ∈ fine, ¬ e.ConflictsOn before b) (conflict : e.ConflictsOn before a)
      (edges : before = earlier ++ f :: later) (source : f.source = e.source)
      (symbol : a ∈ f.symbols)
      (first_edge : ∀ f' ∈ earlier, f'.source = e.source → a ∉ f'.symbols) :
      Fault c before e (.nondeterministic ⟨e.source, a, f.target, e.target⟩)

/-- No edge of a list is faulty after those before it. -/
def Faultless (c : Conventions) (edges : List Edge) : Prop :=
  ∀ before e after, edges = before ++ e :: after → ¬ e.IsFaulty c before

variable {before : List Edge} {e : Edge} {t : MoveTable String} {err : ValidationError}

theorem Fault.isFaulty (h : e.Fault c before err) : e.IsFaulty c before := by
  cases h with
  | epsilon epsilon => exact Or.inl epsilon
  | @nondeterministic fine rest a _ _ _ _ symbols _ conflict =>
    exact Or.inr ⟨a, by simp [symbols], conflict⟩

theorem Faultless.append_singleton {edges : List Edge} (h : Faultless c edges)
    (he : ¬ e.IsFaulty c edges) : Faultless c (edges ++ [e]) := by
  intro before f after heq
  rcases List.eq_nil_or_concat after with rfl | ⟨after, f', rfl⟩
  · obtain ⟨rfl, hf⟩ := List.append_inj' heq rfl
    cases hf
    exact he
  · rw [List.concat_eq_append, ← List.cons_append, ← List.append_assoc] at heq
    exact h before f after (List.append_inj' heq rfl).1

/-! ### Reading -/

/-- The moves of an edge on some symbols. -/
def movesOn (e : Edge) (symbols : List String) : List (String × String × String) :=
  symbols.map fun a => (e.source, a, e.target)

theorem mem_flatMap_moves {edges : List Edge} {s a p : String} :
    (s, a, p) ∈ edges.flatMap moves ↔
      ∃ f ∈ edges, f.source = s ∧ a ∈ f.symbols ∧ f.target = p := by
  simp only [List.mem_flatMap, mem_moves]

/-- A symbol is recorded unless there is a conflict on it, and then all edges before that have the
symbol lead to the node that is reported first. -/
theorem readSymbol_cases {done : List String}
    (h : t.Holds (before.flatMap moves ++ e.movesOn done)) (a : String) :
    (¬ e.ConflictsOn before a ∧ ∃ t', Graph.readSymbol e t a = .ok t' ∧
        t'.Holds (before.flatMap moves ++ e.movesOn (done ++ [a]))) ∨
      e.ConflictsOn before a ∧ ∀ f ∈ before, f.source = e.source → a ∈ f.symbols →
        Graph.readSymbol e t a =
          .error (.nondeterministic ⟨e.source, a, f.target, e.target⟩) := by
  rw [Graph.readSymbol]
  rcases h.record_cases e.source a e.target with ⟨t', hok, ht'⟩ | ⟨first, hfirst, hne, herr⟩
  · rw [List.append_assoc] at ht'
    refine Or.inl ⟨?_, t', by rw [hok]; rfl, by simpa [movesOn] using ht'⟩
    rintro ⟨f, hf, hsource, ha, htarget⟩
    apply htarget
    apply ht'.deterministic e.source a
    · exact List.mem_append_left _ (mem_flatMap_moves.mpr ⟨f, hf, hsource, ha, rfl⟩)
    · simp
  · have hbefore : (e.source, a, first) ∈ before.flatMap moves := by
      -- The edge's own moves lead to its target.
      refine (List.mem_append.mp hfirst).resolve_right fun hown => ?_
      obtain ⟨b, -, hb⟩ := List.mem_map.mp hown
      cases hb
      exact hne rfl
    obtain ⟨f, hf, hsource, ha, rfl⟩ := mem_flatMap_moves.mp hbefore
    refine Or.inr ⟨⟨f, hf, hsource, ha, hne⟩, fun f' hf' hsource' ha' => ?_⟩
    have hsame : f.target = f'.target := h.deterministic e.source a _ _ hfirst
      (List.mem_append_left _ (mem_flatMap_moves.mpr ⟨f', hf', hsource', ha', rfl⟩))
    rw [herr, hsame]
    rfl

theorem readSymbols_cases (h : t.Holds (before.flatMap moves)) (symbols : List String) :
    (∃ t', symbols.foldlM (Graph.readSymbol e) t = .ok t' ∧
        t'.Holds (before.flatMap moves ++ e.movesOn symbols) ∧
        ∀ b ∈ symbols, ¬ e.ConflictsOn before b) ∨
      ∃ fine a rest, symbols = fine ++ a :: rest ∧ (∀ b ∈ fine, ¬ e.ConflictsOn before b) ∧
        e.ConflictsOn before a ∧ ∀ f ∈ before, f.source = e.source → a ∈ f.symbols →
          symbols.foldlM (Graph.readSymbol e) t =
            .error (.nondeterministic ⟨e.source, a, f.target, e.target⟩) := by
  let P (done : List String) (t : MoveTable String) : Prop :=
    t.Holds (before.flatMap moves ++ e.movesOn done) ∧ ∀ b ∈ done, ¬ e.ConflictsOn before b
  have hstep : ∀ done a t t', P done t → Graph.readSymbol e t a = .ok t' → P (done ++ [a]) t' := by
    intro done a t t' ⟨ht, hfine⟩ hok
    rcases readSymbol_cases ht a with ⟨hnot, t'', hread, ht''⟩ | ⟨⟨f, hf, hsource, ha, -⟩, hread⟩
    · rw [hread] at hok
      cases hok
      exact ⟨ht'', List.forall_mem_append.mpr ⟨hfine, List.forall_mem_singleton.mpr hnot⟩⟩
    · rw [hread f hf hsource ha] at hok
      cases hok
  have hstart : P [] t := ⟨by simpa [movesOn] using h, by simp⟩
  rcases foldlM_cases hstep hstart (l := symbols) with
    ⟨t', hok, ht', hfine⟩ | ⟨fine, a, rest, t', err, hsymbols, ⟨ht', hfine⟩, herr, hfold⟩
  · exact Or.inl ⟨t', hok, ht', hfine⟩
  · rcases readSymbol_cases ht' a with ⟨-, t'', hread, -⟩ | ⟨hconflict, hread⟩
    · rw [hread] at herr
      cases herr
    · refine Or.inr ⟨fine, a, rest, hsymbols, hfine, hconflict, fun f hf hsource ha => ?_⟩
      rw [hfold, ← herr, hread f hf hsource ha]

theorem readEdge_cases (h : t.Holds (before.flatMap moves)) (c : Conventions) (e : Edge) :
    (∃ t', Graph.readEdge c t e = .ok t' ∧ t'.Holds ((before ++ [e]).flatMap moves) ∧
        ¬ e.IsFaulty c before) ∨
      ∃ err, Graph.readEdge c t e = .error err ∧ e.Fault c before err := by
  rw [Graph.readEdge]
  split
  case isTrue hepsilon =>
    exact Or.inr ⟨_, rfl, .epsilon (isEpsilonEdge_iff.mp hepsilon)⟩
  case isFalse hepsilon =>
    have hnot : ¬ e.IsEpsilon c := fun h => hepsilon (isEpsilonEdge_iff.mpr h)
    rcases readSymbols_cases h e.symbols with
      ⟨t', hok, ht', hfine⟩ | ⟨fine, a, rest, hsymbols, hfine, hconflict, hfold⟩
    · refine Or.inl ⟨t', hok, by simpa [moves, movesOn] using ht', ?_⟩
      rintro (hepsilon | ⟨a, ha, hconflict⟩)
      · exact hnot hepsilon
      · exact hfine a ha hconflict
    · obtain ⟨f', hf', hsource', ha', -⟩ := id hconflict
      obtain ⟨earlier, f, later, hbefore, ⟨hsource, ha⟩, hearlier⟩ :=
        exists_first (P := fun f : Edge => f.source = e.source ∧ a ∈ f.symbols)
          ⟨f', hf', hsource', ha'⟩
      have hf : f ∈ before := by simp [hbefore]
      exact Or.inr ⟨_, hfold f hf hsource ha, .nondeterministic hnot hsymbols hfine hconflict
        hbefore hsource ha fun f' hf' hsource' ha' => hearlier f' hf' ⟨hsource', ha'⟩⟩

theorem Fault.readEdge_eq (hfault : e.Fault c before err) (h : t.Holds (before.flatMap moves)) :
    Graph.readEdge c t e = .error err := by
  cases hfault with
  | epsilon epsilon => rw [Graph.readEdge, if_pos (isEpsilonEdge_iff.mpr epsilon)]
  | @nondeterministic fine rest a earlier later f not_epsilon symbols first_symbol conflict edges
      source symbol =>
    have hf : f ∈ before := by simp [edges]
    rw [Graph.readEdge, if_neg fun h => not_epsilon (isEpsilonEdge_iff.mp h), symbols,
      List.foldlM_append]
    rcases readSymbols_cases h fine with ⟨t', hok, ht', -⟩ | ⟨_, b, _, hfine, -, hconflict, -⟩
    · rcases readSymbol_cases ht' a with ⟨hnot, -⟩ | ⟨-, herr⟩
      · exact absurd conflict hnot
      · simp only [hok, List.foldlM_cons, herr f hf source symbol, bind, Except.bind]
    · exact absurd hconflict (first_symbol b (by simp [hfine]))

theorem readEdge_eq_error_iff (h : t.Holds (before.flatMap moves)) :
    Graph.readEdge c t e = .error err ↔ e.Fault c before err := by
  constructor
  · intro herror
    rcases readEdge_cases h c e with ⟨t', hread, -⟩ | ⟨err', hread, hfault⟩
    · rw [hread] at herror
      cases herror
    · cases hread.symm.trans herror
      exact hfault
  · intro hfault
    exact hfault.readEdge_eq h

theorem judges_readEdge (c : Conventions) :
    Judges (Graph.readEdge c) .empty
      (fun done t => t.Holds (done.flatMap moves) ∧ Faultless c done) (Faultless c)
      (fun before e err => e.Fault c before err) where
  start := ⟨MoveTable.holds_empty, by simp [Faultless]⟩
  step done e t t' h hok := by
    rcases readEdge_cases h.1 c e with ⟨t'', hread, ht'', hnot⟩ | ⟨err, hread, -⟩
    · rw [hread] at hok
      cases hok
      exact ⟨ht'', h.2.append_singleton hnot⟩
    · rw [hread] at hok
      cases hok
  good _ _ h := h.2
  error_iff _ _ _ _ h := readEdge_eq_error_iff h.1
  not_fault done e rest _ hfaultless hfault := hfaultless done e rest rfl hfault.isFaulty

end Edge

namespace Graph

variable {g : Graph} {t : MoveTable String} {err : ValidationError}

def moves (g : Graph) : List (String × String × String) :=
  g.edges.flatMap Edge.moves

theorem mem_moves {s a p : String} :
    (s, a, p) ∈ g.moves ↔ ∃ e ∈ g.edges, e.source = s ∧ a ∈ e.symbols ∧ e.target = p :=
  Edge.mem_flatMap_moves

theorem exists_moveTable_iff_faultless :
    (∃ t, g.moveTable c = .ok t) ↔ Edge.Faultless c g.edges :=
  (Edge.judges_readEdge c).exists_foldlM_iff

theorem holds_moveTable (h : g.moveTable c = .ok t) : t.Holds g.moves :=
  ((Edge.judges_readEdge c).of_foldlM_eq_ok h).1

/-- Reported is what is wrong with the first faulty edge. -/
theorem moveTable_eq_error_iff :
    g.moveTable c = .error err ↔ ∃ before e after, g.edges = before ++ e :: after ∧
      Edge.Faultless c before ∧ e.Fault c before err :=
  (Edge.judges_readEdge c).foldlM_eq_error_iff

end Graph

end DrawnModels
