import DrawnModels.Proofs.Automaton.Idempotence
import DrawnModels.Proofs.Automaton.Reading

/-!
# No faults

Minimizing with every access checked goes through. Refinement ends with a congruence whose classes
divide the states, so each state is entered into the table of classes, the rows tabulate the moves
between classes, and none of these moves clashes with another. What comes of it is well formed, so
it can be minimized in turn.
-/

namespace DrawnModels

namespace Checked

variable {d : Dfa} {p : Partition Nat} {block : Nat → Nat}

/-! ### The table of classes -/

/-- Each state has its class in the table, unless it is still to be entered. -/
structure Enters (size : Nat) (block : Nat → Nat) (todo : Nat → Prop) (table : List Nat) :
    Prop where
  length : table.length = size
  entered : ∀ q < size, todo q ∨ table[q]? = some (block q)

variable {size : Nat} {todo : Nat → Prop} {table : List Nat}

theorem Enters.mono {todo' : Nat → Prop} (h : Enters size block todo table)
    (htodo : ∀ q, todo q → todo' q) : Enters size block todo' table where
  length := h.length
  entered q hq := (h.entered q hq).imp_left (htodo q)

theorem Enters.assign (h : Enters size block todo table) {q : Nat} (hq : q < size) :
    ∃ table', assign table q (block q) = .ok table' ∧
      Enters size block (fun r => todo r ∧ r ≠ q) table' := by
  have hlt : q < table.length := h.length ▸ hq
  refine ⟨table.set q (block q), by rw [Checked.assign, if_pos hlt], ?_, fun r hr => ?_⟩
  · rw [List.length_set, h.length]
  · rw [List.getElem?_set]
    by_cases hqr : q = r
    · subst hqr
      rw [if_pos rfl, if_pos hlt]
      exact Or.inr rfl
    · rw [if_neg hqr]
      exact (h.entered r hr).imp_left fun ht => ⟨ht, Ne.symm hqr⟩

theorem Enters.foldlM_assign (h : Enters size block todo table) {members : List Nat} {i : Nat}
    (hmembers : ∀ q ∈ members, q < size ∧ block q = i) :
    ∃ table', members.foldlM (fun table q => Checked.assign table q i) table = .ok table' ∧
      Enters size block (fun r => todo r ∧ r ∉ members) table' := by
  induction members generalizing todo table with
  | nil => exact ⟨table, rfl, h.mono fun r hr => ⟨hr, List.not_mem_nil⟩⟩
  | cons q rest ih =>
    obtain ⟨⟨hq, hi⟩, hrest⟩ := List.forall_mem_cons.mp hmembers
    obtain ⟨table', hok, hent⟩ := h.assign hq
    obtain ⟨table'', hok', hent'⟩ := ih hent hrest
    have hdone : Enters size block (fun r => todo r ∧ r ∉ q :: rest) table'' :=
      hent'.mono fun r hr => ⟨hr.1.1, List.not_mem_cons_of_ne_of_not_mem hr.1.2 hr.2⟩
    rw [hi] at hok
    exact ⟨table'', by rw [List.foldlM_cons, hok]; exact hok', hdone⟩

theorem Enters.foldlM_enterClass (h : Enters size block todo table) {classes : List (Block × Nat)}
    (hclasses : ∀ c ∈ classes, ∀ q ∈ c.1, q < size ∧ block q = c.2) :
    ∃ table', classes.foldlM enterClass table = .ok table' ∧
      Enters size block (fun r => todo r ∧ ∀ c ∈ classes, r ∉ c.1) table' := by
  induction classes generalizing todo table with
  | nil => exact ⟨table, rfl, h.mono fun r hr => ⟨hr, by simp⟩⟩
  | cons c rest ih =>
    obtain ⟨hc, hrest⟩ := List.forall_mem_cons.mp hclasses
    obtain ⟨table', hok, hent⟩ := h.foldlM_assign hc
    obtain ⟨table'', hok', hent'⟩ := ih hent hrest
    have hdone : Enters size block (fun r => todo r ∧ ∀ e ∈ c :: rest, r ∉ e.1) table'' :=
      hent'.mono fun r hr => ⟨hr.1.1, List.forall_mem_cons.mpr ⟨hr.1.2, hr.2⟩⟩
    exact ⟨table'', by rw [List.foldlM_cons, enterClass, hok]; exact hok', hdone⟩

theorem exists_classTable (h : d.Classified p block) :
    ∃ table, classTable d.size p = .ok table ∧ ∀ q < d.size, table[q]? = some (block q) := by
  have hstart : Enters d.size block (fun _ => True) (List.replicate d.size 0) :=
    ⟨List.length_replicate, fun _ _ => Or.inl trivial⟩
  have hclasses : ∀ c ∈ p.classes.zipIdx, ∀ q ∈ c.1, q < d.size ∧ block q = c.2 :=
    fun c hc q hq => (h.mem_iff (List.mem_zipIdx_iff_getElem?.mp hc)).mp hq
  obtain ⟨table, hok, hent⟩ := hstart.foldlM_enterClass hclasses
  refine ⟨table, hok, fun q hq => (hent.entered q hq).resolve_left ?_⟩
  rintro ⟨-, hnone⟩
  obtain ⟨c, hc, hqc⟩ := h.exists_class hq
  exact hnone (c, block q) (List.mem_zipIdx_iff_getElem?.mpr hc) hqc

/-! ### Quotients -/

theorem recordClassMove_follows (h : d.Classified p block)
    (htable : ∀ q < d.size, table[q]? = some (block q)) {t : MoveTable Nat} {rows : Rows}
    (ht : Tabulates (List.range p.size) d.alphabet t rows) {m : Nat × String × Nat}
    (hm : m ∈ d.transitions) :
    Follows .ofDefect (Tabulates (List.range p.size) d.alphabet)
      (Dfa.recordClassMove p t m) (recordClassMove d.alphabet table rows m) := by
  obtain ⟨q, a, r⟩ := m
  have hr := Dfa.mem_transitions.mp hm
  have hq : q < d.size := Dfa.lt_size_of_successor? hr
  have hr' : r < d.size := h.isWellFormed.isClosed q a r hr
  have ha : a ∈ d.alphabet := h.isWellFormed.mem_alphabet q a r hr
  have hsource : (List.range p.size)[block q]? = some (block q) :=
    List.getElem?_range (h.block_lt hq)
  have htarget : block r ∈ List.range p.size := List.mem_range.mpr (h.block_lt hr')
  have hrecord : Follows (fun _ => .ofDefect .notCongruent)
      (Tabulates (List.range p.size) d.alphabet) (t.record (block q) a (block r))
      (record (fun _ => .ofDefect .notCongruent) rows (block q) (d.alphabet.idxOf a)
        ((List.range p.size).idxOf (block r))) :=
    ht.record List.nodup_range hsource ha htarget fun _ _ => rfl
  rw [idxOf_range (h.block_lt hr')] at hrecord
  rw [h.recordClassMove_eq hr, recordClassMove, idxOf?_of_mem ha]
  simp only [entry_eq_ok (htable q hq), entry_eq_ok (htable r hr'), bind, Except.bind]
  exact hrecord.mapError (fun _ => Defect.notCongruent) Stop.ofDefect

theorem nameOf_classNames {n i : Nat} (hi : i < n) :
    nameOf (numbering ((List.range n).map fun i => "q" ++ toString i)) i = "q" ++ toString i := by
  apply nameOf_numbering (Dfa.nodup_classNames n)
  rw [List.getElem?_map, List.getElem?_range hi, Option.map_some]

theorem Tabulates.map_movesOf {n : Nat} {alphabet : List String} {t : MoveTable Nat} {rows : Rows}
    (ht : Tabulates (List.range n) alphabet t rows) (i : Nat) :
    ((t.movesOf i).map fun m => (m.1, (List.range n).idxOf m.2)) = t.movesOf i := by
  rw [← List.map_id (t.movesOf i), List.map_map]
  apply List.map_congr_left
  intro m hm
  have hin := ht.mem_sources i m.1 m.2 (MoveTable.mem_movesOf.mp hm)
  simp [idxOf_range (List.mem_range.mp hin)]

theorem assemble_classes (h : d.Classified p block) {t : MoveTable Nat} {rows : Rows}
    (ht : Tabulates (List.range p.size) d.alphabet t rows) :
    Parts.assemble {
      states := numbering ((List.range p.size).map fun i => "q" ++ toString i)
      alphabet := d.alphabet
      rows
      accepting := .ofList (positions p.classes fun c => c.toList.any d.isAccepting)
      initial := block d.initial } = .ok {
        states := p.classes.mapIdx (d.classState t)
        alphabet := d.alphabet
        initial := block d.initial } := by
  have hlength : (numbering ((List.range p.size).map fun i => "q" ++ toString i)).entries.length =
      (List.range p.size).length := by
    rw [length_entries_numbering (Dfa.nodup_classNames p.size), List.length_map]
  have hinitial : block d.initial < (List.range p.size).length := by
    rw [List.length_range]
    exact h.block_lt h.isWellFormed.initial_lt
  rw [Tabulates.assemble ht hlength hinitial]
  congr 2
  apply List.ext_getElem
  · rw [List.length_mapIdx, List.length_mapIdx, List.length_map, List.length_range, Partition.size]
  · intro i _ hi
    rw [List.length_mapIdx] at hi
    have haccepting :
        i ∈ SortedSet.ofList (positions p.classes fun c => c.toList.any d.isAccepting) ↔
          p.classes[i].toList.any d.isAccepting = true := by
      rw [SortedSet.mem_ofList, mem_positions, List.getElem?_eq_getElem hi]
      simp
    have hname := nameOf_classNames (n := p.size) hi
    simp only [List.getElem_mapIdx, List.getElem_map, List.getElem_range, Parts.state,
      Dfa.classState, hname, ht.map_movesOf, haccepting, Bool.decide_eq_true]

/-- The quotient by a congruence is the same with every access checked. -/
theorem quotient_follows (h : d.Classified p block) :
    Follows .ofDefect (fun m m' => m' = m) (d.quotient p) (quotient d p) := by
  obtain ⟨table, hok, htable⟩ := exists_classTable h
  have hinitial := h.isWellFormed.initial_lt
  have hmoves : Follows .ofDefect (Tabulates (List.range p.size) d.alphabet)
      (d.transitions.foldlM (Dfa.recordClassMove p) .empty)
      (d.transitions.foldlM (recordClassMove d.alphabet table)
        (List.replicate p.size .empty)) := by
    have hempty := tabulates_empty (List.range p.size) d.alphabet
    rw [List.length_range] at hempty
    apply Follows.foldlM (R := fun _ => Tabulates (List.range p.size) d.alphabet) _ [] hempty
    intro m hm _ t rows ht
    exact recordClassMove_follows h htable ht hm
  unfold quotient quotientParts Dfa.quotient
  rw [hok, Dfa.classOf, h.classOf? d.initial hinitial]
  simp only [bind_assoc, pure_bind]
  apply hmoves.bind
  intro t rows ht
  rw [entry_eq_ok (htable d.initial hinitial)]
  simp only [bind, Except.bind, assemble_classes h ht]
  exact .ok rfl

theorem minimize_eq (hd : d.IsWellFormed) : minimize d = d.minimize.mapError .ofDefect := by
  obtain ⟨p, block, hp, h, -⟩ := Dfa.exists_classified hd
  apply Follows.eq_mapError
  unfold minimize Dfa.minimize
  rw [hp]
  exact quotient_follows h

/-- Well-formed automata can be minimized any number of times. -/
theorem exists_minimizeTimes (hd : d.IsWellFormed) (n : Nat) :
    ∃ e, minimizeTimes Dfa.minimize n d = .ok e ∧ minimizeTimes minimize n d = .ok e := by
  induction n generalizing d with
  | zero => exact ⟨d, rfl, rfl⟩
  | succ n ih =>
    obtain ⟨m, -, hm, -⟩ := Dfa.exists_isMinimizationOf hd
    obtain ⟨e, he, he'⟩ := ih (Dfa.isWellFormed_of_minimize hd hm).1
    refine ⟨e, ?_, ?_⟩
    · rw [minimizeTimes, hm]
      exact he
    · rw [minimizeTimes, minimize_eq hd, hm]
      exact he'

/-- Reading and minimizing with every access checked does what reading and minimizing does: a draft
or a graph is rejected for one of the reasons that there are, or an automaton comes of it that can
be minimized any number of times. There are no faults. -/
theorem run_cases (draft : Draft) (c : Conventions) (n : Nat) :
    (∃ e, draft.build = .error e ∧ run draft c n = .error (.unfit e)) ∨
      (∃ g e, draft.build = .ok g ∧ g.toDfa c = .error e ∧
        run draft c n = .error (.rejected e)) ∨
      ∃ g d m, draft.build = .ok g ∧ g.toDfa c = .ok d ∧
        minimizeTimes Dfa.minimize n d = .ok m ∧ run draft c n = .ok m := by
  unfold run
  cases draft.build with
  | error e => exact Or.inl ⟨e, rfl, rfl⟩
  | ok g =>
    have hread := read_eq g c
    cases hd : g.toDfa c with
    | error e =>
      rw [hd] at hread
      refine Or.inr (Or.inl ⟨g, e, rfl, hd, ?_⟩)
      simp only [Except.mapError, hread, bind, Except.bind]
    | ok d =>
      rw [hd] at hread
      obtain ⟨m, hm, hm'⟩ := exists_minimizeTimes (Graph.isWellFormed_of_toDfa hd) n
      refine Or.inr (Or.inr ⟨g, d, m, rfl, hd, hm, ?_⟩)
      simp only [Except.mapError, hread, bind, Except.bind, hm']

end Checked

end DrawnModels
