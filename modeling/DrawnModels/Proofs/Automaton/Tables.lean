import DrawnModels.Automaton.Checked
import DrawnModels.Proofs.Automaton.Moves
import DrawnModels.Proofs.Collection.Folds
import DrawnModels.Proofs.Collection.Occurrences

/-!
# Tables of automata

Rows tabulate a move table if they have its moves with the symbols replaced by their positions and
the states by their numbers. Recording a move in the rows does what recording it in the move table
does, and finds the row that it needs. So the rows can be put together to an automaton.
-/

namespace DrawnModels

namespace Checked

theorem entry_eq_ok {α : Type} {l : List α} {i : Nat} {a : α} (h : l[i]? = some a) :
    entry l i = .ok a := by
  rw [entry, h]

theorem mem_positions {α : Type} {l : List α} {p : α → Bool} {i : Nat} :
    i ∈ positions l p ↔ ∃ a, l[i]? = some a ∧ p a = true := by
  rw [positions, List.mem_map]
  constructor
  · rintro ⟨⟨a, j⟩, ha, rfl⟩
    obtain ⟨hmem, hp⟩ := List.mem_filter.mp ha
    exact ⟨a, List.mem_zipIdx_iff_getElem?.mp hmem, hp⟩
  · rintro ⟨a, ha, hp⟩
    exact ⟨(a, i), List.mem_filter.mpr ⟨List.mem_zipIdx_iff_getElem?.mpr ha, hp⟩, rfl⟩

/-! ### Names -/

variable {names : List String}

theorem entries_numbering (h : names.Nodup) : (numbering names).entries = names.zipIdx :=
  KeyedList.entries_ofList (by rwa [List.zipIdx_map_fst])

theorem length_entries_numbering (h : names.Nodup) :
    (numbering names).entries.length = names.length := by
  rw [entries_numbering h, List.length_zipIdx]

theorem find?_numbering (h : names.Nodup) {name : String} (hname : name ∈ names) :
    (numbering names).find? name = some (names.idxOf name) := by
  rw [KeyedList.find?_eq_some_iff, entries_numbering h, List.mem_zipIdx_iff_getElem?]
  exact List.getElem?_idxOf hname

theorem nameOf_numbering (h : names.Nodup) {q : Nat} {name : String}
    (hq : names[q]? = some name) : nameOf (numbering names) q = name := by
  rw [nameOf, entries_numbering h]
  have hmem : (name, q) ∈ names.zipIdx := List.mem_zipIdx_iff_getElem?.mpr hq
  split
  · rename_i e he
    have hnumber : e.2 = q := by simpa using List.find?_some he
    have hname := List.mem_zipIdx_iff_getElem?.mp (List.mem_of_find?_eq_some he)
    rw [hnumber, hq] at hname
    exact (Option.some.inj hname).symm
  · rename_i hnone
    have hne := List.find?_eq_none.mp hnone _ hmem
    simp at hne

/-! ### Alphabets -/

variable {alphabet : List String} {a : String}

theorem mem_withSymbol_self (alphabet : List String) (a : String) : a ∈ withSymbol alphabet a := by
  unfold withSymbol
  split
  · assumption
  · simp

theorem idxOf_withSymbol (ha : a ∈ alphabet) (b : String) :
    a ∈ withSymbol alphabet b ∧ (withSymbol alphabet b).idxOf a = alphabet.idxOf a := by
  unfold withSymbol
  split
  · exact ⟨ha, rfl⟩
  · exact ⟨List.mem_append_left _ ha, List.idxOf_append_of_mem ha⟩

theorem eraseDups_append_singleton (l : List String) (a : String) :
    (l ++ [a]).eraseDups = withSymbol l.eraseDups a := by
  simp only [eraseDups_concat, withSymbol, List.mem_eraseDups]

/-! ### Rows -/

variable {σ : Type} [DecidableEq σ] {sources : List σ} {t : MoveTable σ} {rows : Rows}

/-- The moves from a state with positions for the symbols and numbers for the targets. -/
def numberedMoves (sources : List σ) (alphabet : List String) (t : MoveTable σ) (s : σ) :
    List (Nat × Nat) :=
  (t.movesOf s).map fun m => (alphabet.idxOf m.1, sources.idxOf m.2)

theorem numberedMoves_insert {s : σ} (hnew : t.find? (s, a) = none) (p r : σ) :
    numberedMoves sources alphabet (t.insert (s, a) p) r =
      numberedMoves sources alphabet t r ++
        if r = s then [(alphabet.idxOf a, sources.idxOf p)] else [] := by
  rw [numberedMoves, MoveTable.movesOf_insert hnew, List.map_append]
  split <;> rfl

theorem of_find?_insert {s p r q : σ} {b : String}
    (h : (t.insert (s, a) p).find? (r, b) = some q) :
    (b = a ∧ q = p) ∨ t.find? (r, b) = some q := by
  rw [KeyedList.find?_insert] at h
  split at h
  · rename_i hkey
    exact Or.inl ⟨(Prod.mk.inj hkey).2, (Option.some.inj h).symm⟩
  · exact Or.inr h

/-- There is a row for each state, and it holds the moves from the state. -/
structure Tabulates (sources : List σ) (alphabet : List String) (t : MoveTable σ) (rows : Rows) :
    Prop where
  entries : rows.map KeyedList.entries = sources.map (numberedMoves sources alphabet t)
  mem_alphabet : ∀ s a p, t.find? (s, a) = some p → a ∈ alphabet
  mem_sources : ∀ s a p, t.find? (s, a) = some p → p ∈ sources

theorem tabulates_empty (sources : List σ) (alphabet : List String) :
    Tabulates sources alphabet .empty (List.replicate sources.length .empty) where
  entries := by
    rw [List.map_replicate, ← List.map_const]
    rfl
  mem_alphabet s a p h := by
    rw [KeyedList.find?_empty] at h
    cases h
  mem_sources s a p h := by
    rw [KeyedList.find?_empty] at h
    cases h

namespace Tabulates

theorem length_rows (h : Tabulates sources alphabet t rows) : rows.length = sources.length := by
  simpa using congrArg List.length h.entries

theorem exists_row (h : Tabulates sources alphabet t rows) {i : Nat} {s : σ}
    (hs : sources[i]? = some s) :
    ∃ row, rows[i]? = some row ∧ row.entries = numberedMoves sources alphabet t s := by
  have hi := congrArg (·[i]?) h.entries
  simp only [List.getElem?_map, hs, Option.map_some] at hi
  exact Option.map_eq_some_iff.mp hi

theorem mem_alphabet_of_mem (h : Tabulates sources alphabet t rows) {s : σ} {m : String × σ}
    (hm : m ∈ t.movesOf s) : m.1 ∈ alphabet :=
  h.mem_alphabet s m.1 m.2 (MoveTable.mem_movesOf.mp hm)

/-- What follows a state on a symbol is found in its row at the position of the symbol. -/
theorem find?_row (h : Tabulates sources alphabet t rows) {row : KeyedList Nat Nat} {s : σ}
    (hrow : row.entries = numberedMoves sources alphabet t s) (a : String) :
    row.find? (alphabet.idxOf a) = (t.find? (s, a)).map sources.idxOf := by
  ext j
  rw [KeyedList.find?_eq_some_iff, hrow, numberedMoves, List.mem_map, Option.map_eq_some_iff]
  constructor
  · rintro ⟨m, hm, heq⟩
    obtain ⟨hposition, hj⟩ := Prod.mk.inj heq
    rw [List.idxOf_inj (h.mem_alphabet_of_mem hm)] at hposition
    exact ⟨m.2, hposition ▸ MoveTable.mem_movesOf.mp hm, hj⟩
  · rintro ⟨p, hp, rfl⟩
    exact ⟨(a, p), MoveTable.mem_movesOf.mpr hp, rfl⟩

theorem withSymbol (h : Tabulates sources alphabet t rows) (a : String) :
    Tabulates sources (withSymbol alphabet a) t rows where
  entries := by
    rw [h.entries]
    apply List.map_congr_left
    intro s _
    apply List.map_congr_left
    intro m hm
    rw [(idxOf_withSymbol (h.mem_alphabet_of_mem hm) a).2]
  mem_alphabet s b p hp := (idxOf_withSymbol (h.mem_alphabet s b p hp) a).1
  mem_sources := h.mem_sources

theorem insert (h : Tabulates sources alphabet t rows) (hnodup : sources.Nodup) {i : Nat} {s p : σ}
    (hs : sources[i]? = some s) (ha : a ∈ alphabet) (hp : p ∈ sources) {row : KeyedList Nat Nat}
    (hrow : row.entries = numberedMoves sources alphabet t s) (hnew : t.find? (s, a) = none) :
    Tabulates sources alphabet (t.insert (s, a) p)
      (rows.set i (row.insert (alphabet.idxOf a) (sources.idxOf p))) where
  entries := by
    have hfree : row.find? (alphabet.idxOf a) = none := by
      rw [h.find?_row hrow, hnew, Option.map_none]
    apply List.ext_getElem?
    intro j
    rw [List.map_set, h.entries, List.getElem?_set, KeyedList.entries_insert hfree, hrow,
      List.length_map]
    by_cases hij : i = j
    · subst hij
      rw [if_pos rfl, if_pos (List.getElem?_eq_some_iff.mp hs).1, List.getElem?_map, hs,
        Option.map_some, numberedMoves_insert hnew, if_pos rfl]
    · rw [if_neg hij, List.getElem?_map, List.getElem?_map]
      cases hr : sources[j]? with
      | none => rfl
      | some r =>
        have hne : r ≠ s := fun heq => by
          have hlt := (List.getElem?_eq_some_iff.mp hs).1
          exact hij ((List.getElem?_inj hlt hnodup).mp (by rw [hs, hr, heq]))
        rw [Option.map_some, Option.map_some, numberedMoves_insert hnew, if_neg hne,
          List.append_nil]
  mem_alphabet r b q hq := by
    rcases of_find?_insert hq with ⟨rfl, -⟩ | hq
    · exact ha
    · exact h.mem_alphabet r b q hq
  mem_sources r b q hq := by
    rcases of_find?_insert hq with ⟨-, rfl⟩ | hq
    · exact hp
    · exact h.mem_sources r b q hq

/-- A move is recorded in the rows, or clashes there, as in the table. -/
theorem record (h : Tabulates sources alphabet t rows) (hnodup : sources.Nodup) {i : Nat} {s p : σ}
    (hs : sources[i]? = some s) (ha : a ∈ alphabet) (hp : p ∈ sources) {clash : Nat → Stop}
    {rename : Clash σ → Stop}
    (hclash : ∀ first ∈ sources, clash (sources.idxOf first) = rename ⟨s, a, first, p⟩) :
    Follows rename (Tabulates sources alphabet) (t.record s a p)
      (record clash rows i (alphabet.idxOf a) (sources.idxOf p)) := by
  obtain ⟨row, hi, hrow⟩ := h.exists_row hs
  unfold Checked.record MoveTable.record
  rw [entry_eq_ok hi]
  simp only [bind, Except.bind, h.find?_row hrow]
  cases hfind : t.find? (s, a) with
  | none => exact .ok (h.insert hnodup hs ha hp hrow hfind)
  | some first =>
    have hfirst := h.mem_sources s a first hfind
    simp only [Option.map_some, List.idxOf_inj hfirst]
    split
    · exact .ok h
    · rw [hclash first hfirst]
      exact .error _

theorem mapM_namedMove (h : Tabulates sources alphabet t rows) :
    (rows.mapM fun row => row.entries.mapM (namedMove alphabet)) =
      .ok (sources.map fun s => (t.movesOf s).map fun m => (m.1, sources.idxOf m.2)) := by
  have hnamed : ∀ s ∈ sources, (numberedMoves sources alphabet t s).mapM (namedMove alphabet) =
      .ok ((t.movesOf s).map fun m => (m.1, sources.idxOf m.2)) := by
    intro s _
    rw [numberedMoves, List.mapM_map]
    apply mapM_eq_ok
    intro m hm
    have hsymbol := List.getElem?_idxOf (h.mem_alphabet_of_mem hm)
    simp [namedMove, entry_eq_ok hsymbol, bind, Except.bind, pure, Except.pure]
  have hrows := List.mapM_map (f := KeyedList.entries) (g := fun l => l.mapM (namedMove alphabet))
    (l := rows)
  rw [h.entries, List.mapM_map] at hrows
  rw [← mapM_eq_ok hnamed]
  exact hrows.symm

theorem assemble {p : Parts} (h : Tabulates sources p.alphabet t p.rows)
    (hlength : p.states.entries.length = sources.length) (hinitial : p.initial < sources.length) :
    p.assemble = .ok {
      states := (sources.map fun s => (t.movesOf s).map fun m => (m.1, sources.idxOf m.2)).mapIdx
        p.state
      alphabet := p.alphabet
      initial := p.initial } := by
  have heven : ¬ p.states.entries.length ≠ p.rows.length := by rw [h.length_rows, hlength]; simp
  have hin : ¬ p.states.entries.length ≤ p.initial := by omega
  rw [Parts.assemble, if_neg heven, if_neg hin, h.mapM_namedMove]
  rfl

end Tabulates

end Checked

end DrawnModels
