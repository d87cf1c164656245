import DrawnModels.Proofs.Automaton.Faults

/-!
# How automata are represented

However an automaton comes about, by reading a graph or by minimizing any number of times, its
tables fit together: names and numbers of states correspond, nothing points out of a table, and a
row is filled for the whole alphabet or not at all. What the rows say about states without moves
follows from how the automaton behaves, which minimization does not change.
-/

namespace DrawnModels

namespace Checked

/-- What holds of the tables of every automaton. -/
structure Parts.IsSound (p : Parts) : Prop where
  length_states : p.states.entries.length = p.rows.length
  existsUnique_name : ∀ q < p.rows.length, ∃! name, p.states.find? name = some q
  number_lt : ∀ name q, p.states.find? name = some q → q < p.rows.length
  nodup_alphabet : p.alphabet.Nodup
  position_lt : ∀ row ∈ p.rows, ∀ i r, row.find? i = some r → i < p.alphabet.length
  target_lt : ∀ row ∈ p.rows, ∀ i r, row.find? i = some r → r < p.rows.length
  accepting_lt : ∀ q ∈ p.accepting, q < p.rows.length
  initial_lt : p.initial < p.rows.length
  /-- A state has moves on all symbols or on none. -/
  filled_or_empty : ∀ row ∈ p.rows,
    (∀ i < p.alphabet.length, ∃ r, row.find? i = some r) ∨ row.entries = []
  /-- A state without moves is not moved to either, unless there are no symbols. -/
  no_target : p.alphabet ≠ [] → ∀ q row, p.rows[q]? = some row → row.entries = [] →
    ∀ row' ∈ p.rows, ∀ i, row'.find? i ≠ some q

/-! ### Tables that are put together -/

section

variable {alphabet : List String} {p : Parts} {d : Dfa}

/-- A move with its symbol. Positions beyond the alphabet do not matter. -/
def symbolMove (alphabet : List String) (m : Nat × Nat) : String × Nat :=
  (alphabet.getD m.1 "", m.2)

theorem namedMove_eq_ok {m : Nat × Nat} {b : String × Nat} (h : namedMove alphabet m = .ok b) :
    m.1 < alphabet.length ∧ b = symbolMove alphabet m := by
  unfold namedMove entry at h
  cases hm : alphabet[m.1]? with
  | none => simp [hm, bind, Except.bind] at h
  | some a =>
    simp only [hm, bind, Except.bind, pure, Except.pure, Except.ok.injEq] at h
    obtain ⟨hlt, -⟩ := List.getElem?_eq_some_iff.mp hm
    exact ⟨hlt, by rw [← h, symbolMove, List.getD_eq_getElem?_getD, hm, Option.getD_some]⟩

theorem mapM_namedMove_eq_ok {row : KeyedList Nat Nat} {moves : List (String × Nat)}
    (h : row.entries.mapM (namedMove alphabet) = .ok moves) :
    (∀ m ∈ row.entries, m.1 < alphabet.length) ∧
      moves = row.entries.map (symbolMove alphabet) := by
  obtain ⟨hall, rfl⟩ := (mapM_eq_ok_iff fun _ _ h => (namedMove_eq_ok h).2).mp h
  exact ⟨fun m hm => (namedMove_eq_ok (hall m hm)).1, rfl⟩

theorem assemble_eq_ok (h : p.assemble = .ok d) :
    p.states.entries.length = p.rows.length ∧ p.initial < p.rows.length ∧
      (∀ row ∈ p.rows, ∀ m ∈ row.entries, m.1 < p.alphabet.length) ∧
      d = {
        states := (p.rows.map fun row => row.entries.map (symbolMove p.alphabet)).mapIdx p.state
        alphabet := p.alphabet
        initial := p.initial } := by
  unfold Parts.assemble at h
  split at h
  case isTrue => cases h
  case isFalse heven =>
    split at h
    case isTrue => cases h
    case isFalse hinitial =>
      have heven : p.states.entries.length = p.rows.length := Decidable.not_not.mp heven
      obtain ⟨moves, hmoves, hd⟩ := bind_eq_ok_iff.mp h
      obtain ⟨hrows, rfl⟩ := (mapM_eq_ok_iff fun _ _ h => (mapM_namedMove_eq_ok h).2).mp hmoves
      refine ⟨heven, by omega, fun row hrow => (mapM_namedMove_eq_ok (hrows row hrow)).1, ?_⟩
      cases hd
      rfl

theorem size_of_assemble (h : p.assemble = .ok d) : d.size = p.rows.length := by
  obtain ⟨-, -, -, rfl⟩ := assemble_eq_ok h
  rw [Dfa.size, List.length_mapIdx, List.length_map]

theorem alphabet_of_assemble (h : p.assemble = .ok d) : d.alphabet = p.alphabet := by
  obtain ⟨-, -, -, rfl⟩ := assemble_eq_ok h
  rfl

theorem find?_symbolMoves (halphabet : alphabet.Nodup) {row : KeyedList Nat Nat}
    (hrow : ∀ m ∈ row.entries, m.1 < alphabet.length) {a : String} {r : Nat} :
    (KeyedList.ofList (row.entries.map (symbolMove alphabet))).find? a = some r ↔
      ∃ i, row.find? i = some r ∧ alphabet[i]? = some a := by
  have hsymbol : ∀ m ∈ row.entries, alphabet[m.1]? = some (symbolMove alphabet m).1 := by
    intro m hm
    rw [symbolMove, List.getD_eq_getElem?_getD, List.getElem?_eq_getElem (hrow m hm),
      Option.getD_some]
  have hkeys : ((row.entries.map (symbolMove alphabet)).map Prod.fst).Nodup := by
    have hentries : row.entries.Nodup := List.Nodup.of_map Prod.fst row.keys_nodup
    rw [List.map_map]
    refine hentries.map_on fun m hm n hn hmn => ?_
    have hposition : m.1 = n.1 := (List.getElem?_inj (hrow m hm) halphabet).mp
      ((hsymbol m hm).trans ((congrArg some hmn).trans (hsymbol n hn).symm))
    exact List.inj_on_of_nodup_map row.keys_nodup hm hn hposition
  rw [KeyedList.find?_eq_some_iff, KeyedList.entries_ofList hkeys, List.mem_map]
  constructor
  · rintro ⟨m, hm, heq⟩
    obtain ⟨ha, hr⟩ := Prod.mk.inj heq
    exact ⟨m.1, KeyedList.find?_eq_some_iff.mpr (hr ▸ hm), (hsymbol m hm).trans (by rw [← ha]; rfl)⟩
  · rintro ⟨i, hi, ha⟩
    have hm := KeyedList.find?_eq_some_iff.mp hi
    exact ⟨(i, r), hm, Prod.ext (Option.some.inj ((hsymbol _ hm).symm.trans ha)) rfl⟩

theorem successor?_of_assemble (h : p.assemble = .ok d) (halphabet : p.alphabet.Nodup) {q r : Nat}
    {a : String} :
    d.successor? q a = some r ↔
      ∃ row i, p.rows[q]? = some row ∧ row.find? i = some r ∧ p.alphabet[i]? = some a := by
  obtain ⟨-, -, hrows, rfl⟩ := assemble_eq_ok h
  rw [Dfa.successor?, List.getElem?_mapIdx, List.getElem?_map]
  cases hrow : p.rows[q]? with
  | none => simp
  | some row =>
    have hfind := find?_symbolMoves halphabet (a := a) (r := r) (hrows row (List.mem_of_getElem? hrow))
    simpa [Parts.state] using hfind

theorem exists_successor? (h : p.assemble = .ok d) (halphabet : p.alphabet.Nodup) {q i r : Nat}
    {row : KeyedList Nat Nat} (hq : p.rows[q]? = some row) (hi : row.find? i = some r) :
    i < p.alphabet.length ∧ ∃ a, d.successor? q a = some r := by
  obtain ⟨-, -, hpositions, -⟩ := assemble_eq_ok h
  have hlt : i < p.alphabet.length :=
    hpositions row (List.mem_of_getElem? hq) (i, r) (KeyedList.find?_eq_some_iff.mp hi)
  exact ⟨hlt, p.alphabet[i], (successor?_of_assemble h halphabet).mpr
    ⟨row, i, hq, hi, List.getElem?_eq_getElem hlt⟩⟩

theorem exists_find?_of_isCompleteAt (h : p.assemble = .ok d) (halphabet : p.alphabet.Nodup)
    {q i : Nat} {row : KeyedList Nat Nat} (hcomplete : d.IsCompleteAt q)
    (hq : p.rows[q]? = some row) (hi : i < p.alphabet.length) : ∃ r, row.find? i = some r := by
  have hmem : p.alphabet[i] ∈ d.alphabet := by
    rw [alphabet_of_assemble h]
    exact List.getElem_mem hi
  obtain ⟨r, hr⟩ := hcomplete p.alphabet[i] hmem
  obtain ⟨row', j, hrow', hj, hsymbol⟩ := (successor?_of_assemble h halphabet).mp hr
  cases hq.symm.trans hrow'
  obtain rfl : i = j := (List.getElem?_inj hi halphabet).mp
    ((List.getElem?_eq_getElem hi).trans hsymbol.symm)
  exact ⟨r, hj⟩

/-- The tables of a well-formed automaton are sound if names are numbered in order. -/
theorem isSound_of_assemble (h : p.assemble = .ok d) (hd : d.IsWellFormed)
    (halphabet : p.alphabet.Nodup) (names : List String) (hnames : names.Nodup)
    (hstates : p.states = numbering names) (haccepting : ∀ q ∈ p.accepting, q < names.length) :
    p.IsSound := by
  obtain ⟨heven, hinitial, -⟩ := assemble_eq_ok h
  have hlength : names.length = p.rows.length := by
    rw [← heven, hstates, length_entries_numbering hnames]
  have hnumber : ∀ name q, p.states.find? name = some q ↔ names[q]? = some name := by
    intro name q
    rw [hstates, KeyedList.find?_eq_some_iff, entries_numbering hnames,
      List.mem_zipIdx_iff_getElem?]
  refine {
    length_states := heven
    existsUnique_name := fun q hq => ?existsUnique_name
    number_lt := fun name q hq => ?number_lt
    nodup_alphabet := halphabet
    position_lt := fun row hrow i r hi => ?position_lt
    target_lt := fun row hrow i r hi => ?target_lt
    accepting_lt := fun q hq => hlength ▸ haccepting q hq
    initial_lt := hinitial
    filled_or_empty := fun row hrow => ?filled_or_empty
    no_target := fun hsymbols q row hq hempty row' hrow' i hi => ?no_target }
  case existsUnique_name =>
    simp only [hnumber]
    have hq : q < names.length := hlength ▸ hq
    exact ⟨names[q], List.getElem?_eq_getElem hq, fun name hname =>
      Option.some.inj (hname.symm.trans (List.getElem?_eq_getElem hq))⟩
  case number_lt => exact hlength ▸ (List.getElem?_eq_some_iff.mp ((hnumber name q).mp hq)).1
  case position_lt =>
    obtain ⟨q, hq⟩ := List.mem_iff_getElem?.mp hrow
    exact (exists_successor? h halphabet hq hi).1
  case target_lt =>
    obtain ⟨q, hq⟩ := List.mem_iff_getElem?.mp hrow
    obtain ⟨-, a, hr⟩ := exists_successor? h halphabet hq hi
    exact size_of_assemble h ▸ hd.isClosed q a r hr
  case filled_or_empty =>
    obtain ⟨q, hq⟩ := List.mem_iff_getElem?.mp hrow
    cases hentries : row.entries with
    | nil => exact Or.inr rfl
    | cons m rest =>
      have hm : row.find? m.1 = some m.2 := KeyedList.find?_eq_some_iff.mpr (by simp [hentries])
      obtain ⟨-, a, hr⟩ := exists_successor? h halphabet hq hm
      have hcomplete := (hd.isCompleteAt q a m.2 hr).1
      exact Or.inl fun i hi => exists_find?_of_isCompleteAt h halphabet hcomplete hq hi
  case no_target =>
    -- A state that is moved to moves on every symbol, so also on the first.
    obtain ⟨q', hq'⟩ := List.mem_iff_getElem?.mp hrow'
    obtain ⟨-, a, hr⟩ := exists_successor? h halphabet hq' hi
    have hcomplete := (hd.isCompleteAt q' a q hr).2
    have hpos : 0 < p.alphabet.length := List.length_pos_iff.mpr hsymbols
    obtain ⟨r, hr'⟩ := exists_find?_of_isCompleteAt h halphabet hcomplete hq hpos
    rw [KeyedList.find?_eq_some_iff, hempty] at hr'
    cases hr'

end

/-! ### Tables that are made -/

variable {g : Graph} {c : Conventions} {d : Dfa}

theorem lt_length_of_mem_positions {α : Type} {l : List α} {f : α → Bool} {q : Nat}
    (hq : q ∈ SortedSet.ofList (positions l f)) : q < l.length := by
  obtain ⟨a, ha, -⟩ := mem_positions.mp (SortedSet.mem_ofList.mp hq)
  exact (List.getElem?_eq_some_iff.mp ha).1

theorem nodup_alphabet_of_toDfa (h : g.toDfa c = .ok d) : d.alphabet.Nodup := by
  obtain ⟨t, q, -, -, -, rfl⟩ := Graph.toDfa_eq_ok_iff.mp h
  exact nodup_eraseDups _

theorem isSound_of_readParts (h : g.toDfa c = .ok d) {p : Parts}
    (hp : readParts c g.nodes g.edges = .ok p) (hassemble : p.assemble = .ok d) : p.IsSound := by
  have halphabet : p.alphabet.Nodup := alphabet_of_assemble hassemble ▸ nodup_alphabet_of_toDfa h
  apply isSound_of_assemble hassemble (Graph.isWellFormed_of_toDfa h) halphabet
    (g.nodes.map Node.id) (g.map_id_nodes ▸ g.table.keys_nodup)
  all_goals
    obtain ⟨r, -, hp⟩ := bind_eq_ok_iff.mp hp
    obtain ⟨q, -, hp⟩ := bind_eq_ok_iff.mp hp
    obtain ⟨-, -, hp⟩ := bind_eq_ok_iff.mp hp
    cases hp
  · rfl
  · intro q hq
    rw [List.length_map]
    exact lt_length_of_mem_positions hq

theorem isSound_of_quotientParts {classes : Partition Nat} (hd : d.alphabet.Nodup) {p : Parts}
    (hp : quotientParts d classes = .ok p) {e : Dfa} (hassemble : p.assemble = .ok e)
    (he : e.IsWellFormed) : p.IsSound := by
  obtain ⟨table, -, hp⟩ := bind_eq_ok_iff.mp hp
  obtain ⟨rows, -, hp⟩ := bind_eq_ok_iff.mp hp
  obtain ⟨initial, -, hp⟩ := bind_eq_ok_iff.mp hp
  cases hp
  apply isSound_of_assemble hassemble he hd _ (Dfa.nodup_classNames classes.size) rfl
  intro q hq
  rw [List.length_map, List.length_range]
  exact lt_length_of_mem_positions hq

def tables (g : Graph) (c : Conventions) : Nat → Except Stop Parts
  | 0 => readParts c g.nodes g.edges
  | n + 1 => do
    let p ← tables g c n
    let d ← p.assemble
    let classes ← d.languagePartition.mapError .ofDefect
    quotientParts d classes

theorem minimizeTimes_succ {ε : Type} {minimize : Dfa → Except ε Minimized} {n : Nat} {e : Dfa}
    {m : Minimized} (h : minimizeTimes minimize n d = .ok e) (hm : minimize e = .ok m) :
    minimizeTimes minimize (n + 1) d = .ok m.automaton := by
  induction n generalizing d with
  | zero =>
    cases h
    rw [minimizeTimes, hm]
    rfl
  | succ n ih =>
    obtain ⟨m', hm', h⟩ := bind_eq_ok_iff.mp h
    rw [minimizeTimes, hm']
    exact ih h

/-- What comes of minimizing has sound tables if what is minimized is well formed. -/
theorem exists_quotientParts (hd : d.IsWellFormed) (halphabet : d.alphabet.Nodup) :
    ∃ classes p m, d.languagePartition.mapError Stop.ofDefect = .ok classes ∧
      quotientParts d classes = .ok p ∧ p.assemble = .ok m.automaton ∧ d.minimize = .ok m ∧
      m.automaton.IsWellFormed ∧ p.IsSound := by
  obtain ⟨m, -, hm, -⟩ := Dfa.exists_isMinimizationOf hd
  have hwell := (Dfa.isWellFormed_of_minimize hd hm).1
  have hchecked : minimize d = .ok m := by rw [minimize_eq hd, hm]; rfl
  obtain ⟨classes, hclasses, hquotient⟩ := bind_eq_ok_iff.mp hchecked
  obtain ⟨p, hp, hquotient⟩ := bind_eq_ok_iff.mp hquotient
  obtain ⟨automaton, hassemble, hquotient⟩ := bind_eq_ok_iff.mp hquotient
  cases hquotient
  exact ⟨classes, p, _, hclasses, hp, hassemble, hm, hwell,
    isSound_of_quotientParts halphabet hp hassemble hwell⟩

/-- However often an automaton is minimized that is read off a graph, the tables of what comes of it
are sound. -/
theorem isSound_tables (h : g.toDfa c = .ok d) (n : Nat) :
    ∃ p e, tables g c n = .ok p ∧ p.assemble = .ok e ∧ minimizeTimes Dfa.minimize n d = .ok e ∧
      e.IsWellFormed ∧ p.IsSound := by
  induction n with
  | zero =>
    have hread : read c g.nodes g.edges = .ok d := by rw [read_eq, h]; rfl
    obtain ⟨p, hp, hassemble⟩ := bind_eq_ok_iff.mp hread
    exact ⟨p, d, hp, hassemble, rfl, Graph.isWellFormed_of_toDfa h,
      isSound_of_readParts h hp hassemble⟩
  | succ n ih =>
    obtain ⟨p, e, hp, hassemble, htimes, he, hsound⟩ := ih
    have halphabet : e.alphabet.Nodup := alphabet_of_assemble hassemble ▸ hsound.nodup_alphabet
    obtain ⟨classes, p', m, hclasses, hp', hassemble', hm, hwell, hsound'⟩ :=
      exists_quotientParts he halphabet
    refine ⟨p', m.automaton, ?_, hassemble', minimizeTimes_succ htimes hm, hwell, hsound'⟩
    simp only [tables, hp, hassemble, hclasses, hp', bind, Except.bind]

theorem isSound_tables_twoSinks :
    ∃ d p e, Graph.twoSinks.toDfa {} = .ok d ∧ tables .twoSinks {} 2 = .ok p ∧
      p.assemble = .ok e ∧ minimizeTimes Dfa.minimize 2 d = .ok e ∧ e.IsWellFormed ∧
      p.IsSound := by
  have hok : (Graph.twoSinks.toDfa {}).isOk = true := by decide +kernel
  obtain ⟨d, hd⟩ := exists_eq_ok_of_isOk hok
  obtain ⟨p, e, hp, hassemble, htimes, he, hsound⟩ := isSound_tables hd 2
  exact ⟨d, p, e, hd, hp, hassemble, htimes, he, hsound⟩

end Checked

end DrawnModels
