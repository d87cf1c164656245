import DrawnModels.Automaton.Quotient
import DrawnModels.Proofs.Automaton.LanguageClasses

/-!
# Quotients by congruences

In the quotient by a congruence the class of a state does what the state does: it accepts if the
state accepts, and it moves to the class of the state that follows, or not at all. So a word is
accepted in the quotient if and only if it is accepted in the automaton. Minimization takes the
quotient by the classes of indistinguishable states.
-/

namespace DrawnModels

namespace Dfa

variable {d : Dfa} {p : Partition Nat} {block : Nat → Nat}

theorem mem_movesFrom {q r : Nat} {a : String} :
    (a, r) ∈ d.movesFrom q ↔ d.successor? q a = some r := by
  rw [movesFrom, successor?]
  cases d.states[q]? with
  | none => simp
  | some s => exact KeyedList.find?_eq_some_iff.symm

theorem lt_size_of_successor? {q r : Nat} {a : String} (h : d.successor? q a = some r) :
    q < d.size := by
  obtain ⟨s, hs, -⟩ := Option.bind_eq_some_iff.mp h
  exact (List.getElem?_eq_some_iff.mp hs).1

theorem mem_transitions {q r : Nat} {a : String} :
    (q, a, r) ∈ d.transitions ↔ d.successor? q a = some r := by
  simp only [transitions, List.mem_flatMap, List.mem_range, List.mem_map, Prod.mk.injEq]
  constructor
  · rintro ⟨_, -, ⟨b, s⟩, hm, rfl, rfl, rfl⟩
    exact mem_movesFrom.mp hm
  · intro h
    exact ⟨q, lt_size_of_successor? h, (a, r), mem_movesFrom.mpr h, rfl, rfl, rfl⟩

theorem getElem?_names (d : Dfa) (q : Nat) : d.names[q]? = d.name? q := by
  rw [names, List.getElem?_map, name?]

theorem exists_name? {q : Nat} (hq : q < d.size) : ∃ name, d.name? q = some name :=
  ⟨_, by rw [name?, List.getElem?_eq_getElem hq, Option.map_some]⟩

theorem lt_size_of_name? {q : Nat} {name : String} (h : d.name? q = some name) : q < d.size := by
  obtain ⟨s, hs, -⟩ := Option.map_eq_some_iff.mp h
  exact (List.getElem?_eq_some_iff.mp hs).1

theorem eq_of_name? (h : d.names.Nodup) {q r : Nat} {name : String} (hq : d.name? q = some name)
    (hr : d.name? r = some name) : q = r := by
  rw [← getElem?_names] at hq hr
  exact (List.getElem?_inj (List.getElem?_eq_some_iff.mp hq).1 h).mp (hq.trans hr.symm)

theorem mem_blockNames {c : Block} {name : String} :
    name ∈ SortedSet.ofList (c.toList.filterMap d.name?) ↔ ∃ q ∈ c, d.name? q = some name := by
  rw [SortedSet.mem_ofList, List.mem_filterMap]
  rfl

/-! ### Moves between classes -/

/-- Every state belongs to the class of a congruence whose number `block` says. -/
structure Classified (d : Dfa) (p : Partition Nat) (block : Nat → Nat) : Prop where
  isWellFormed : d.IsWellFormed
  divides : p.Divides (List.range d.size)
  isCongruence : p.IsCongruence d
  classOf? : ∀ q < d.size, p.classOf? q = some (block q)

def blockMoves (d : Dfa) (block : Nat → Nat) : List (Nat × String × Nat) :=
  d.transitions.map fun m => (block m.1, m.2.1, block m.2.2)

theorem mem_blockMoves {i j : Nat} {a : String} :
    (i, a, j) ∈ d.blockMoves block ↔
      ∃ q r, d.successor? q a = some r ∧ block q = i ∧ block r = j := by
  simp only [blockMoves, List.mem_map, Prod.mk.injEq]
  constructor
  · rintro ⟨⟨q, _, r⟩, hm, rfl, rfl, rfl⟩
    exact ⟨q, r, mem_transitions.mp hm, rfl, rfl⟩
  · rintro ⟨q, r, hr, rfl, rfl⟩
    exact ⟨(q, a, r), mem_transitions.mpr hr, rfl, rfl, rfl⟩

namespace Classified

theorem mem_iff (h : d.Classified p block) {i : Nat} {c : Block} (hc : p.classes[i]? = some c)
    {q : Nat} : q ∈ c ↔ q < d.size ∧ block q = i := by
  constructor
  · intro hq
    have hlt : q < d.size :=
      List.mem_range.mp (h.divides.mem_members (List.mem_of_getElem? hc) hq)
    have hi := h.divides.classOf?_eq_some_iff.mpr ⟨c, hc, hq⟩
    rw [h.classOf? q hlt] at hi
    exact ⟨hlt, Option.some.inj hi⟩
  · rintro ⟨hlt, rfl⟩
    obtain ⟨c', hc', hq⟩ := h.divides.classOf?_eq_some_iff.mp (h.classOf? q hlt)
    rw [hc] at hc'
    cases hc'
    exact hq

theorem exists_class (h : d.Classified p block) {q : Nat} (hq : q < d.size) :
    ∃ c, p.classes[block q]? = some c ∧ q ∈ c :=
  h.divides.classOf?_eq_some_iff.mp (h.classOf? q hq)

theorem block_lt (h : d.Classified p block) {q : Nat} (hq : q < d.size) : block q < p.size := by
  obtain ⟨c, hc, -⟩ := h.exists_class hq
  exact (List.getElem?_eq_some_iff.mp hc).1

/-- Of two states in one class, either both move on a symbol, and into one class, or neither
does. -/
theorem map_block_successor? (h : d.Classified p block) {q r : Nat} (hq : q < d.size)
    (hr : r < d.size) (hqr : block q = block r) (a : String) :
    (d.successor? q a).map block = (d.successor? r a).map block := by
  have hfollow : ∀ q < d.size, ∀ r < d.size, block q = block r → ∀ q',
      d.successor? q a = some q' → ∃ r', d.successor? r a = some r' ∧ block r' = block q' := by
    intro q hq r hr hqr q' hq'
    obtain ⟨c, hc, hqc⟩ := h.exists_class hq
    have hrc : r ∈ c := (h.mem_iff hc).mpr ⟨hr, hqr.symm⟩
    obtain ⟨r', e, hr', he, hqe, hre⟩ := h.isCongruence.successor? h.divides
      h.isWellFormed.isClosed (List.mem_of_getElem? hc) hqc hrc
      (h.isWellFormed.mem_alphabet q a q' hq') hq'
    obtain ⟨i, hi⟩ := List.mem_iff_getElem?.mp he
    exact ⟨r', hr', ((h.mem_iff hi).mp hre).2.trans ((h.mem_iff hi).mp hqe).2.symm⟩
  ext i
  simp only [Option.map_eq_some_iff]
  constructor
  · rintro ⟨q', hq', rfl⟩
    exact hfollow q hq r hr hqr q' hq'
  · rintro ⟨r', hr', rfl⟩
    exact hfollow r hr q hq hqr.symm r' hr'

theorem deterministic (h : d.Classified p block) :
    MoveTable.Deterministic (d.blockMoves block) := by
  intro i a j k hj hk
  obtain ⟨q, q', hq', rfl, rfl⟩ := mem_blockMoves.mp hj
  obtain ⟨r, r', hr', hqr, rfl⟩ := mem_blockMoves.mp hk
  have heq := h.map_block_successor? (lt_size_of_successor? hq') (lt_size_of_successor? hr')
    hqr.symm a
  rw [hq', hr'] at heq
  exact Option.some.inj heq

theorem recordClassMove_eq (h : d.Classified p block) {q r : Nat} {a : String}
    (hr : d.successor? q a = some r) (t : MoveTable Nat) :
    recordClassMove p t (q, a, r) =
      (t.record (block q) a (block r)).mapError fun _ => .notCongruent := by
  have hqblock := h.classOf? q (lt_size_of_successor? hr)
  have hrblock := h.classOf? r (h.isWellFormed.isClosed q a r hr)
  simp [recordClassMove, classOf, hqblock, hrblock, bind, Except.bind]

theorem foldlM_recordClassMove (h : d.Classified p block) :
    ∃ t, d.transitions.foldlM (recordClassMove p) .empty = .ok t ∧
      t.Holds (d.blockMoves block) := by
  have hrecord : ∀ t, ∀ m ∈ d.transitions, recordClassMove p t m =
      (t.record (block m.1) m.2.1 (block m.2.2)).mapError fun _ => .notCongruent :=
    fun t _ hm => h.recordClassMove_eq (mem_transitions.mp hm) t
  rcases MoveTable.holds_empty.foldlM_record_cases
      (fun m : Nat × String × Nat => (block m.1, m.2.1, block m.2.2)) _ hrecord with
    hok | ⟨before, ⟨q, a, r⟩, after, first, htransitions, hfirst, hne, -⟩
  · exact hok
  · refine absurd (h.deterministic (block q) a first (block r) ?_ ?_) hne
    · rw [blockMoves, htransitions, List.map_append]
      exact List.mem_append_left _ hfirst
    · have hmem : (q, a, r) ∈ d.transitions := by simp [htransitions]
      exact mem_blockMoves.mpr ⟨q, r, mem_transitions.mp hmem, rfl, rfl⟩

theorem find?_eq_of_holds (h : d.Classified p block) {t : MoveTable Nat}
    (ht : t.Holds (d.blockMoves block)) {q : Nat} (hq : q < d.size) (a : String) :
    t.find? (block q, a) = (d.successor? q a).map block := by
  ext j
  rw [ht, mem_blockMoves]
  constructor
  · rintro ⟨r, r', hr', hqr, rfl⟩
    rw [h.map_block_successor? hq (lt_size_of_successor? hr') hqr.symm, hr', Option.map_some]
  · intro hj
    obtain ⟨q', hq', rfl⟩ := Option.map_eq_some_iff.mp hj
    exact ⟨q, q', hq', rfl, rfl⟩

end Classified

end Dfa

/-! ### The quotient -/

/-- Every state of an automaton is merged into a state that does the same, and nothing else is
there. The state that `q` is merged into is `block q`. -/
structure Minimized.IsQuotientOf (m : Minimized) (d : Dfa) (block : Nat → Nat) : Prop where
  blockOf? : ∀ q < d.size, (d.name? q).bind m.blockOf? = some (block q)
  block_lt : ∀ q < d.size, block q < m.size
  surjective : ∀ i < m.size, ∃ q < d.size, block q = i
  alphabet : m.automaton.alphabet = d.alphabet
  initial : m.automaton.initial = block d.initial
  isAccepting : ∀ q < d.size, m.automaton.isAccepting (block q) = d.isAccepting q
  successor? : ∀ q < d.size, ∀ a,
    m.automaton.successor? (block q) a = (d.successor? q a).map block

/-- The states that are merged are those that no word tells apart, and the classes list their
names. -/
structure Minimized.IsMinimizationOf (m : Minimized) (d : Dfa) (block : Nat → Nat) : Prop
    extends m.IsQuotientOf d block where
  block_eq_iff : ∀ q < d.size, ∀ r < d.size, block q = block r ↔ d.Indistinguishable q r
  length_classes : m.classes.length = m.size
  mem_class : ∀ i s, m.classes[i]? = some s →
    ∀ name, name ∈ s ↔ ∃ q, d.name? q = some name ∧ block q = i

namespace Minimized.IsQuotientOf

variable {m : Minimized} {d : Dfa} {block : Nat → Nat}

theorem run? (h : m.IsQuotientOf d block) (hd : d.IsClosed) {q : Nat} (hq : q < d.size)
    (word : List String) : m.automaton.run? (block q) word = (d.run? q word).map block := by
  induction word generalizing q with
  | nil => rfl
  | cons a word ih =>
    rw [Dfa.run?, Dfa.run?, h.successor? q hq a]
    cases hq' : d.successor? q a with
    | none => rfl
    | some q' => exact ih (hd q a q' hq')

theorem accepts (h : m.IsQuotientOf d block) (hd : d.IsWellFormed) (word : List String) :
    m.automaton.accepts word = d.accepts word := by
  rw [Dfa.accepts, Dfa.accepts, h.initial, h.run? hd.isClosed hd.initial_lt]
  cases hq : d.run? d.initial word with
  | none => rfl
  | some q => exact h.isAccepting q (hd.isClosed.run?_lt hd.initial_lt hq)

end Minimized.IsQuotientOf

namespace Minimized.IsMinimizationOf

variable {m : Minimized} {d : Dfa} {block : Nat → Nat}

/-- The classes are the sets of names of the states that no word tells apart from some state. -/
theorem mem_classes_iff (h : m.IsMinimizationOf d block) {s : SortedSet String} :
    s ∈ m.classes ↔ ∃ q < d.size, ∀ name, name ∈ s ↔
      ∃ r, d.name? r = some name ∧ d.Indistinguishable q r := by
  have hclass : ∀ q < d.size, ∀ t, m.classes[block q]? = some t → ∀ name, name ∈ t ↔
      ∃ r, d.name? r = some name ∧ d.Indistinguishable q r := by
    intro q hq t ht name
    rw [h.mem_class _ t ht]
    refine exists_congr fun r => and_congr_right fun hname => ?_
    rw [← h.block_eq_iff q hq r (Dfa.lt_size_of_name? hname), eq_comm]
  constructor
  · intro hs
    obtain ⟨i, hi⟩ := List.mem_iff_getElem?.mp hs
    have hlt : i < m.size := h.length_classes ▸ (List.getElem?_eq_some_iff.mp hi).1
    obtain ⟨q, hq, rfl⟩ := h.surjective i hlt
    exact ⟨q, hq, hclass q hq s hi⟩
  · rintro ⟨q, hq, hs⟩
    have hlt : block q < m.classes.length := h.length_classes ▸ h.block_lt q hq
    have ht := List.getElem?_eq_getElem hlt
    rw [SortedSet.eq_of_mem_iff fun name => (hs name).trans (hclass q hq _ ht name).symm]
    exact List.mem_of_getElem? ht

theorem nodup_classes (h : m.IsMinimizationOf d block) (hd : d.names.Nodup) :
    m.classes.Nodup := by
  refine List.pairwise_iff_getElem.mpr fun i j hi hj hij hsame => ?_
  obtain ⟨q, hq, hqi⟩ := h.surjective i (h.length_classes ▸ hi)
  obtain ⟨name, hname⟩ := Dfa.exists_name? hq
  have hmem := (h.mem_class i _ (List.getElem?_eq_getElem hi) name).mpr ⟨q, hname, hqi⟩
  rw [hsame, h.mem_class j _ (List.getElem?_eq_getElem hj) name] at hmem
  obtain ⟨r, hr, hrj⟩ := hmem
  rw [Dfa.eq_of_name? hd hr hname, hqi] at hrj
  exact absurd hrj (Nat.ne_of_lt hij)

end Minimized.IsMinimizationOf

namespace Dfa

variable {d : Dfa} {p : Partition Nat} {block : Nat → Nat}

namespace Classified

theorem quotient_eq_ok (h : d.Classified p block) :
    ∃ t, t.Holds (d.blockMoves block) ∧ d.quotient p = .ok {
      automaton := {
        states := p.classes.mapIdx (d.classState t)
        alphabet := d.alphabet
        initial := block d.initial }
      classes := p.classes.map fun c => .ofList (c.toList.filterMap d.name?) } := by
  obtain ⟨t, hfold, ht⟩ := h.foldlM_recordClassMove
  have hinitial := h.classOf? d.initial h.isWellFormed.initial_lt
  exact ⟨t, ht, by simp [quotient, hfold, classOf, hinitial, bind, Except.bind, pure, Except.pure]⟩

theorem findIdx?_name (h : d.Classified p block) {q : Nat} (hq : q < d.size) {name : String}
    (hname : d.name? q = some name) :
    (p.classes.map fun c => SortedSet.ofList (c.toList.filterMap d.name?)).findIdx? (name ∈ ·) =
      some (block q) := by
  have hmem : ∀ c : Block, name ∈ SortedSet.ofList (c.toList.filterMap d.name?) ↔ q ∈ c := by
    intro c
    rw [mem_blockNames]
    constructor
    · rintro ⟨r, hr, hrname⟩
      rwa [eq_of_name? h.isWellFormed.nodup_names hname hrname]
    · exact fun hqc => ⟨q, hqc, hname⟩
  rw [← h.classOf? q hq, Partition.classOf?, List.findIdx?_map]
  congr 1
  funext c
  simp [hmem]

theorem any_isAccepting_eq (h : d.Classified p block) {c : Block} (hc : c ∈ p.classes) {q : Nat}
    (hq : q ∈ c) : c.toList.any d.isAccepting = d.isAccepting q := by
  rw [Bool.eq_iff_iff, List.any_eq_true]
  constructor
  · rintro ⟨r, hr, hacc⟩
    rwa [h.isCongruence.accepting c hc q hq r hr]
  · exact fun hacc => ⟨q, hq, hacc⟩

theorem exists_quotient (h : d.Classified p block) :
    ∃ m, d.quotient p = .ok m ∧ m.IsQuotientOf d block := by
  obtain ⟨t, ht, hm⟩ := h.quotient_eq_ok
  have hstate : ∀ q < d.size, ∃ c ∈ p.classes, q ∈ c ∧
      (p.classes.mapIdx (d.classState t))[block q]? = some (d.classState t (block q) c) := by
    intro q hq
    obtain ⟨c, hc, hqc⟩ := h.exists_class hq
    exact ⟨c, List.mem_of_getElem? hc, hqc, by rw [List.getElem?_mapIdx, hc, Option.map_some]⟩
  refine ⟨_, hm, ⟨?_, ?_, ?_, rfl, rfl, ?_, ?_⟩⟩
  · intro q hq
    obtain ⟨name, hname⟩ := exists_name? hq
    rw [hname]
    exact h.findIdx?_name hq hname
  · intro q hq
    rw [Minimized.size, size, List.length_mapIdx]
    exact h.block_lt hq
  · intro i hi
    rw [Minimized.size, size, List.length_mapIdx] at hi
    obtain ⟨q, hq⟩ := h.divides.inhabited p.classes[i] (List.getElem_mem hi)
    exact ⟨q, (h.mem_iff (List.getElem?_eq_getElem hi)).mp hq⟩
  · intro q hq
    obtain ⟨c, hc, hqc, hs⟩ := hstate q hq
    rw [isAccepting, hs]
    exact h.any_isAccepting_eq hc hqc
  · intro q hq a
    obtain ⟨c, -, -, hs⟩ := hstate q hq
    rw [← h.find?_eq_of_holds ht hq a, successor?, hs]
    simpa [classState] using MoveTable.find?_ofList_movesOf t (block q) id a

/-- In a congruence whose classes are as large as they can be, states share a class if no word
tells them apart. -/
theorem block_eq_iff (h : d.Classified p block)
    (hcoarse : ∀ c ∈ p.classes, ∀ q ∈ c, ∀ r < d.size, d.Indistinguishable q r → r ∈ c)
    {q r : Nat} (hq : q < d.size) (hr : r < d.size) :
    block q = block r ↔ d.Indistinguishable q r := by
  obtain ⟨c, hc, hqc⟩ := h.exists_class hq
  have hmem := List.mem_of_getElem? hc
  constructor
  · intro hqr
    have hrc : r ∈ c := (h.mem_iff hc).mpr ⟨hr, hqr.symm⟩
    exact h.isCongruence.indistinguishable h.divides h.isWellFormed.isClosed hmem hqc hrc
  · intro hqr
    exact ((h.mem_iff hc).mp (hcoarse c hmem q hqc r hr hqr)).2.symm

theorem mem_blockNames_iff (h : d.Classified p block) {i : Nat} {c : Block}
    (hc : p.classes[i]? = some c) {name : String} :
    name ∈ SortedSet.ofList (c.toList.filterMap d.name?) ↔
      ∃ q, d.name? q = some name ∧ block q = i := by
  rw [mem_blockNames]
  constructor
  · rintro ⟨q, hq, hname⟩
    exact ⟨q, hname, ((h.mem_iff hc).mp hq).2⟩
  · rintro ⟨q, hname, hi⟩
    exact ⟨q, (h.mem_iff hc).mpr ⟨lt_size_of_name? hname, hi⟩, hname⟩

theorem exists_isMinimizationOf (h : d.Classified p block)
    (hcoarse : ∀ c ∈ p.classes, ∀ q ∈ c, ∀ r < d.size, d.Indistinguishable q r → r ∈ c) :
    ∃ m, d.quotient p = .ok m ∧ m.IsMinimizationOf d block := by
  obtain ⟨m, hm, hquot⟩ := h.exists_quotient
  obtain ⟨t, -, hm'⟩ := h.quotient_eq_ok
  cases hm.symm.trans hm'
  refine ⟨_, hm, hquot, fun q hq r hr => h.block_eq_iff hcoarse hq hr, ?_, fun i s hs name => ?_⟩
  · rw [Minimized.size, size, List.length_map, List.length_mapIdx]
  · rw [List.getElem?_map] at hs
    obtain ⟨c, hc, rfl⟩ := Option.map_eq_some_iff.mp hs
    exact h.mem_blockNames_iff hc

end Classified

/-- Refinement classifies the states, and states that no word tells apart are classified alike. -/
theorem exists_classified (hd : d.IsWellFormed) :
    ∃ p block, d.languagePartition = .ok p ∧ d.Classified p block ∧
      ∀ c ∈ p.classes, ∀ q ∈ c, ∀ r < d.size, d.Indistinguishable q r → r ∈ c := by
  obtain ⟨p, hp, hdiv, hcong, hcoarse⟩ := languagePartition_ok hd.isClosed
  have hclass : ∀ q < d.size, ∃ i, p.classOf? q = some i := by
    intro q hq
    obtain ⟨c, hc, hqc⟩ := hdiv.exists_class (List.mem_range.mpr hq)
    obtain ⟨i, hi⟩ := List.mem_iff_getElem?.mp hc
    exact ⟨i, hdiv.classOf?_eq_some_iff.mpr ⟨c, hi, hqc⟩⟩
  choose! block hblock using hclass
  exact ⟨p, block, hp, ⟨hd, hdiv, hcong, hblock⟩, hcoarse⟩

/-- Minimization merges those states that no word tells apart. -/
theorem exists_isMinimizationOf (hd : d.IsWellFormed) :
    ∃ m block, d.minimize = .ok m ∧ m.IsMinimizationOf d block := by
  obtain ⟨p, block, hp, h, hcoarse⟩ := exists_classified hd
  obtain ⟨m, hm, hmin⟩ := h.exists_isMinimizationOf hcoarse
  exact ⟨m, block, by simp [minimize, hp, hm, bind, Except.bind], hmin⟩

theorem exists_minimize (hd : d.IsWellFormed) :
    ∃ m block, d.minimize = .ok m ∧ m.IsQuotientOf d block ∧
      ∀ q < d.size, ∀ r < d.size, block q = block r ↔ d.Indistinguishable q r := by
  obtain ⟨m, block, hm, hmin⟩ := exists_isMinimizationOf hd
  exact ⟨m, block, hm, hmin.toIsQuotientOf, hmin.block_eq_iff⟩

end Dfa

namespace Graph

/-- Minimization changes nothing about what an automaton does, state by state and word by word. -/
theorem minimize_isQuotientOf {g : Graph} {c : Conventions} {d : Dfa} (h : g.toDfa c = .ok d) :
    ∃ m block, d.minimize = .ok m ∧ m.IsQuotientOf d block ∧
      ∀ word, m.automaton.accepts word = d.accepts word := by
  have hd : d.IsWellFormed := isWellFormed_of_toDfa h
  obtain ⟨m, block, hm, hquot, -⟩ := Dfa.exists_minimize hd
  exact ⟨m, block, hm, hquot, hquot.accepts hd⟩

theorem minimize_twoSinks :
    ∃ d m block, twoSinks.toDfa {} = .ok d ∧ d.minimize = .ok m ∧ m.IsQuotientOf d block ∧
      m.automaton.accepts ["0", "1"] = true := by
  have hok : (twoSinks.toDfa {}).toOption.map (·.accepts ["0", "1"]) = some true := by
    decide +kernel
  cases hd : twoSinks.toDfa {} with
  | error err =>
    rw [hd] at hok
    cases hok
  | ok d =>
    rw [hd] at hok
    obtain ⟨m, block, hm, hquot, haccepts⟩ := minimize_isQuotientOf hd
    exact ⟨d, m, block, rfl, hm, hquot, (haccepts _).trans (Option.some.inj hok)⟩

end Graph

end DrawnModels
