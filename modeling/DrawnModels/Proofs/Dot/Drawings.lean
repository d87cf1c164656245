import DrawnModels.Automaton.OfGraph
import DrawnModels.Dot.Drawings
import DrawnModels.Graph.Draft
import DrawnModels.Proofs.Coverability.Ancestry
import DrawnModels.Proofs.Dot.Strings

/-!
# The strings of automata and coverability trees

Names of states, symbols and names of transitions are labels of their own. The label of a node of a
coverability tree has the name of each place before an equals sign, so that only the backslashes
before quotes count there.
-/

namespace DrawnModels

open Dot

/-! ### Automata -/

namespace Dfa

theorem filterMap_label?_dotAttributes (d : Dfa) (q : Nat) :
    (d.dotAttributes q).filterMap NodeAttribute.label? = [d.ident q] := by
  unfold dotAttributes
  by_cases hq : q = d.initial
  · rw [if_pos hq]
    rfl
  · rw [if_neg hq]
    rfl

theorem ident_of_states {d : Dfa} {q : Nat} {st : State} (h : d.states[q]? = some st) :
    d.ident q = st.name := by
  rw [ident, name?, h]
  rfl

theorem movesFrom_of_states {d : Dfa} {q : Nat} {st : State} (h : d.states[q]? = some st) :
    d.movesFrom q = st.moves.entries := by
  rw [movesFrom, h]

theorem mem_labels_iff {d : Dfa} {s : String} :
    s ∈ d.toDigraph.labels ↔ ∃ q ∈ d.states, s = q.name ∨ ∃ m ∈ q.moves.entries, s = m.1 := by
  have hlabels : s ∈ d.toDigraph.labels ↔
      ∃ q < d.size, s = d.ident q ∨ ∃ m ∈ d.movesFrom q, s = m.1 := by
    simp [Digraph.labels, toDigraph, filterMap_label?_dotAttributes, EdgeAttribute.labelText,
      and_or_left, exists_or]
  rw [hlabels]
  constructor
  · intro h
    obtain ⟨q, hq, h⟩ := h
    have hst : d.states[q]? = some d.states[q] := List.getElem?_eq_getElem hq
    rw [ident_of_states hst, movesFrom_of_states hst] at h
    exact ⟨_, List.mem_of_getElem? hst, h⟩
  · intro h
    obtain ⟨st, hmem, h⟩ := h
    obtain ⟨q, hst⟩ := List.mem_iff_getElem?.mp hmem
    rw [← ident_of_states hst, ← movesFrom_of_states hst] at h
    exact ⟨q, (List.getElem?_eq_some_iff.mp hst).1, h⟩

/-- The labels of an automaton are closed by their own quotes if the names of its states and the
symbols of its moves are harmless. -/
theorem closes_label_iff (d : Dfa) : d.toDigraph.Closes .label ↔
    ∀ q ∈ d.states, IsHarmless q.name ∧ ∀ m ∈ q.moves.entries, IsHarmless m.1 := by
  rw [Digraph.closes_label_iff]
  constructor
  · intro h q hq
    exact ⟨h _ (mem_labels_iff.mpr ⟨q, hq, Or.inl rfl⟩), fun m hm =>
      h _ (mem_labels_iff.mpr ⟨q, hq, Or.inr ⟨m, hm, rfl⟩⟩)⟩
  · intro h s hs
    obtain ⟨q, hq, rfl | ⟨m, hm, rfl⟩⟩ := mem_labels_iff.mp hs
    · exact (h q hq).1
    · exact (h q hq).2 m hm

end Dfa

/-! ### Coverability trees -/

variable {cap : Capacity}

theorem Tokens.ne_of_mem_render {k : Tokens cap} {c : Char} (h : c ∈ k.render.toList) :
    c ≠ '\\' ∧ c ≠ '"' := by
  cases k with
  | omega =>
    have htext : (omega : Tokens cap).render.toList = ['∞'] := String.toList_ofList
    rw [htext] at h
    rw [List.mem_singleton.mp h]
    decide
  | finite n =>
    have hdigit : c.isDigit = true := by
      have htext : (Tokens.finite n).render = Nat.repr n.val := rfl
      rw [htext, Nat.repr_eq_ofList_toDigits, String.toList_ofList] at h
      exact Nat.isDigit_of_mem_toDigits (by decide) (by decide) h
    constructor
    · rintro rfl
      exact absurd hdigit (by decide)
    · rintro rfl
      exact absurd hdigit (by decide)

namespace Dot

theorem passAll?_of_ne {s : List Char} (h : ∀ c ∈ s, c ≠ '\\' ∧ c ≠ '"') :
    passAll? false s = some false := by
  induction s with
  | nil => rfl
  | cons c s ih =>
    obtain ⟨⟨hb, hq⟩, hs⟩ := List.forall_mem_cons.mp h
    rw [passAll?_cons, pass?_of_ne hb hq, Option.bind_some, ih hs]

/-- The count behind the name of a place takes care of the backslashes at the end of the name. -/
theorem passAll?_entry (name : String) (k : Tokens cap) :
    passAll? false (name ++ "=" ++ k.render).toList =
      (passAll? false name.toList).map fun _ => false := by
  have hcount : ∀ alone, passAll? alone ('=' :: k.render.toList) = some false := by
    intro alone
    rw [passAll?_cons, pass?_of_ne (by decide) (by decide), Option.bind_some,
      passAll?_of_ne fun c => Tokens.ne_of_mem_render]
  have htext : (name ++ "=" ++ k.render).toList = name.toList ++ '=' :: k.render.toList := by
    simp
  rw [htext, passAll?_append, Option.map_eq_bind]
  exact congrArg _ (funext hcount)

theorem passAll?_entry_eq_some_false_iff (name : String) (k : Tokens cap) :
    passAll? false (name ++ "=" ++ k.render).toList = some false ↔
      EvenBeforeQuotes name.toList := by
  rw [passAll?_entry, ← isSome_passAll?_iff]
  cases passAll? false name.toList <;> simp

theorem passAll?_entry_ne (name : String) (k : Tokens cap) :
    passAll? false (name ++ "=" ++ k.render).toList ≠ some true := by
  rw [passAll?_entry]
  simp

theorem passAll?_intercalate_iff {l : List (List Char)} (h : ∀ s ∈ l, passAll? false s ≠ some true) :
    passAll? false (['\\', 'n'].intercalate l) = some false ↔
      ∀ s ∈ l, passAll? false s = some false := by
  induction l with
  | nil => exact iff_of_true rfl (by simp)
  | cons s l ih =>
    obtain ⟨hs, hl⟩ := List.forall_mem_cons.mp h
    cases l with
    | nil => simp
    | cons s' l =>
      have hbreak : ∀ rest, passAll? false ('\\' :: 'n' :: rest) = passAll? false rest :=
        fun _ => rfl
      rw [List.intercalate_cons_cons, List.append_assoc, passAll?_append, List.forall_mem_cons,
        ← ih hl]
      cases hpass : passAll? false s with
      | none => simp
      | some alone =>
        cases alone with
        | false => simp [hbreak]
        | true => exact absurd hpass hs

end Dot

namespace Coverability.Tree

theorem filterMap_label?_dotAttributes (t : Tree cap) (id : Nat) :
    (t.dotAttributes id).filterMap NodeAttribute.label? = [t.label id "\\n"] := rfl

theorem dotEdge?_eq_some_iff {t : Tree cap} {child : Nat} {e : Nat × List EdgeAttribute} :
    t.dotEdge? child = some e ↔ ∃ o name, t.origin? child = some o ∧
      t.transitionName? o.transition = some name ∧ e = (child, [.label name]) := by
  simp only [dotEdge?, Option.map_eq_some_iff, Option.bind_eq_some_iff]
  constructor
  · rintro ⟨name, ⟨o, ho, hname⟩, rfl⟩
    exact ⟨o, name, ho, hname, rfl⟩
  · rintro ⟨o, name, ho, hname, rfl⟩
    exact ⟨name, ⟨o, ho, hname⟩, rfl⟩

theorem mem_labels_iff {t : Tree cap} {s : String} : s ∈ t.toDigraph.labels ↔
    (∃ id < t.size, s = t.label id "\\n") ∨ ∃ id child o, child ∈ t.children id ∧
      t.origin? child = some o ∧ t.transitionName? o.transition = some s := by
  rw [Digraph.labels, List.mem_append]
  refine or_congr ?_ ⟨?_, ?_⟩
  · simp [toDigraph, filterMap_label?_dotAttributes]
  · intro h
    obtain ⟨id, -, h⟩ := List.mem_flatMap.mp h
    obtain ⟨e, he, hs⟩ := List.mem_flatMap.mp h
    obtain ⟨child, hmem, hchild⟩ := List.mem_filterMap.mp he
    obtain ⟨o, name, ho, hname, rfl⟩ := dotEdge?_eq_some_iff.mp hchild
    rw [List.mem_singleton.mp hs]
    exact ⟨id, child, o, hmem, ho, hname⟩
  · rintro ⟨id, child, o, hmem, ho, hname⟩
    have hid : id < t.size := lt_size_of_mem_children hmem
    have hedge := dotEdge?_eq_some_iff.mpr ⟨o, s, ho, hname, rfl⟩
    exact List.mem_flatMap.mpr ⟨id, List.mem_range.mpr hid,
      List.mem_flatMap.mpr ⟨_, List.mem_filterMap.mpr ⟨child, hmem, hedge⟩,
        List.mem_singleton_self s⟩⟩

theorem forall_mem_zipWith_iff {α β γ : Type} {f : α → β → γ} {P : γ → Prop} {Q : α → Prop}
    (h : ∀ a b, P (f a b) ↔ Q a) (l : List α) (l' : List β) :
    (∀ c ∈ l.zipWith f l', P c) ↔ ∀ a ∈ l.take l'.length, Q a := by
  induction l generalizing l' with
  | nil => simp
  | cons a l ih =>
    cases l' with
    | nil => simp
    | cons b l' =>
      rw [List.zipWith_cons_cons, List.length_cons, List.take_succ_cons, List.forall_mem_cons,
        List.forall_mem_cons, ih, h]

/-- The label of a node is harmless if in the names of its places the number of backslashes is even
before each quote. -/
theorem isHarmless_label_iff {t : Tree cap} {id : Nat} {k : Node cap} (h : t.node? id = some k) :
    IsHarmless (t.label id "\\n") ↔
      ∀ p ∈ t.places.take k.marking.size, EvenBeforeQuotes p.toList := by
  have htext : (t.label id "\\n").toList = ['\\', 'n'].intercalate
      ((t.places.zipWith (fun name n => name ++ "=" ++ n.render) k.marking.counts).map
        String.toList) := by
    rw [label, h]
    exact String.toList_intercalate
  rw [IsHarmless, ← passAll?_eq_some_false_iff, htext, passAll?_intercalate_iff, List.forall_mem_map]
  · exact forall_mem_zipWith_iff passAll?_entry_eq_some_false_iff t.places k.marking.counts
  · rw [List.forall_mem_map]
    exact (forall_mem_zipWith_iff (P := fun e : String => passAll? false e.toList ≠ some true)
      (fun name n => iff_true_intro (passAll?_entry_ne name n)) t.places k.marking.counts).mpr
      fun _ _ => trivial

/-- The labels of a coverability tree are closed by their own quotes if the names of its transitions
are harmless and the number of backslashes is even before each quote in the names of its places. -/
theorem closes_label_iff (t : Tree cap) : t.toDigraph.Closes .label ↔
    (∀ id k, t.node? id = some k →
      ∀ p ∈ t.places.take k.marking.size, EvenBeforeQuotes p.toList) ∧
      ∀ id child o name, child ∈ t.children id → t.origin? child = some o →
        t.transitionName? o.transition = some name → IsHarmless name := by
  rw [Digraph.closes_label_iff]
  constructor
  · intro h
    constructor
    · intro id k hk
      exact (isHarmless_label_iff hk).mp (h _ (mem_labels_iff.mpr
        (Or.inl ⟨id, lt_size_of_node? hk, rfl⟩)))
    · intro id child o name hmem ho hname
      exact h name (mem_labels_iff.mpr (Or.inr ⟨id, child, o, hmem, ho, hname⟩))
  · rintro ⟨hnodes, hedges⟩ s hs
    rcases mem_labels_iff.mp hs with ⟨id, hid, rfl⟩ | ⟨id, child, o, hmem, ho, hname⟩
    · obtain ⟨k, hk⟩ := exists_node?_iff.mpr hid
      exact (isHarmless_label_iff hk).mpr (hnodes id k hk)
    · exact hedges id child o s hmem ho hname

end Coverability.Tree

/-- In the DOT texts of automata and coverability trees the strings for identifiers are closed by
their own quotes. Those for labels are if and only if the names in them are harmless. -/
theorem Dot.closes_drawings (d : Dfa) (t : Coverability.Tree cap) :
    (textOf d.toDigraph.pieces = d.toDigraph.render.toList ∧ d.toDigraph.Closes .identifier ∧
      (d.toDigraph.Closes .label ↔
        ∀ q ∈ d.states, IsHarmless q.name ∧ ∀ m ∈ q.moves.entries, IsHarmless m.1)) ∧
    textOf t.toDigraph.pieces = t.toDigraph.render.toList ∧ t.toDigraph.Closes .identifier ∧
      (t.toDigraph.Closes .label ↔
        (∀ id k, t.node? id = some k →
          ∀ p ∈ t.places.take k.marking.size, EvenBeforeQuotes p.toList) ∧
        ∀ id child o name, child ∈ t.children id → t.origin? child = some o →
          t.transitionName? o.transition = some name → IsHarmless name) :=
  ⟨⟨d.toDigraph.textOf_pieces, d.toDigraph.closes_identifier, d.closes_label_iff⟩,
    t.toDigraph.textOf_pieces, t.toDigraph.closes_identifier, t.closes_label_iff⟩

def Draft.backslashed : Draft :=
  .node .empty "a\\" [("style", "bold")]

def Graph.backslashed : Graph where
  table := .ofList [("a\\", .ofList [("style", "bold")])]
  edges := []
  source_mem := by decide
  target_mem := by decide

def Dfa.backslashed : Dfa :=
  ⟨[⟨"a\\", false, .empty⟩], [], 0⟩

/-- The label of a state whose name ends in a backslash is not closed by its own quote. -/
theorem Dot.not_closes_backslashed :
    Draft.backslashed.build = .ok .backslashed ∧ Graph.backslashed.toDfa {} = .ok .backslashed ∧
      ¬ Dfa.backslashed.toDigraph.Closes .label := by
  refine ⟨by decide +kernel, by decide +kernel, ?_⟩
  rw [Dfa.closes_label_iff]
  intro h
  have hodd : ¬ Even (backslashesAtEnd "a\\".toList) := by decide
  exact hodd (h _ List.mem_cons_self).1.2

end DrawnModels
