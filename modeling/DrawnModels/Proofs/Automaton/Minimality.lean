import DrawnModels.Proofs.Automaton.Quotients
import Mathlib.Data.Set.Card

/-!
# Minimality

Two words after which an automaton goes on differently cannot lead any automaton for the same words
into one state. The minimal automaton goes on differently from each of its states, so whatever
accepts the same words needs a state for each state that a word reaches. States that no word
reaches are kept by minimization, and they are not needed.
-/

namespace DrawnModels

namespace Dfa

variable {d e : Dfa} {q r : Nat}

/-- Some word leads from the initial state to `q`. -/
def IsReached (d : Dfa) (q : Nat) : Prop :=
  ∃ word, d.run? d.initial word = some q

/-- Every state moves on every symbol. -/
structure IsTotalOver (e : Dfa) (alphabet : List String) : Prop where
  initial_lt : e.initial < e.size
  exists_successor? : ∀ q < e.size, ∀ a ∈ alphabet, ∃ r < e.size, e.successor? q a = some r

theorem exists_run?_of_exists_successor? {P : Nat → Prop} {alphabet : List String}
    (step : ∀ q, P q → ∀ a ∈ alphabet, ∃ r, P r ∧ d.successor? q a = some r) (hq : P q)
    {word : List String} (hw : ∀ a ∈ word, a ∈ alphabet) : ∃ r, P r ∧ d.run? q word = some r := by
  induction word generalizing q with
  | nil => exact ⟨q, hq, rfl⟩
  | cons a word ih =>
    obtain ⟨ha, hw⟩ := List.forall_mem_cons.mp hw
    obtain ⟨p, hp, hsucc⟩ := step q hq a ha
    obtain ⟨r, hr, hrun⟩ := ih hp hw
    exact ⟨r, hr, by rw [run?, hsucc, Option.bind_some, hrun]⟩

theorem run?_append_states (he : e.IsClosed) (hq : q < e.size) (more : List State)
    (word : List String) :
    run? { e with states := e.states ++ more } q word = e.run? q word := by
  induction word generalizing q with
  | nil => rfl
  | cons a word ih =>
    have hsucc : successor? { e with states := e.states ++ more } q a = e.successor? q a := by
      rw [successor?, successor?, List.getElem?_append_left hq]
    rw [run?, run?, hsucc]
    cases hp : e.successor? q a with
    | none => rfl
    | some p => exact ih (he q a p hp)

theorem accepts_append_states (he : e.IsClosed) (hinitial : e.initial < e.size)
    (more : List State) (word : List String) :
    accepts { e with states := e.states ++ more } word = e.accepts word := by
  rw [accepts, accepts, run?_append_states he hinitial]
  cases hq : e.run? e.initial word with
  | none => rfl
  | some q => simp [isAccepting, List.getElem?_append_left (he.run?_lt hinitial hq)]

/-! ### Runs of automata that are read off graphs -/

namespace IsWellFormed

theorem mem_alphabet_of_run? (hd : d.IsWellFormed) {word : List String}
    (h : d.run? q word = some r) : ∀ a ∈ word, a ∈ d.alphabet := by
  induction word generalizing q with
  | nil => simp
  | cons a word ih =>
    obtain ⟨p, hp, hr⟩ := Option.bind_eq_some_iff.mp h
    exact List.forall_mem_cons.mpr ⟨hd.mem_alphabet q a p hp, ih hr⟩

theorem exists_run?_of_isCompleteAt (hd : d.IsWellFormed) (hq : d.IsCompleteAt q)
    {word : List String} (hw : ∀ a ∈ word, a ∈ d.alphabet) :
    ∃ r, d.IsCompleteAt r ∧ d.run? q word = some r := by
  refine exists_run?_of_exists_successor? (fun q hq a ha => ?_) hq hw
  obtain ⟨p, hp⟩ := hq a ha
  exact ⟨p, (hd.isCompleteAt q a p hp).2, hp⟩

/-- From an incomplete state only the empty word runs through. -/
theorem eq_of_run?_of_not_isCompleteAt (hd : d.IsWellFormed) (hq : ¬ d.IsCompleteAt q)
    {word : List String} (h : d.run? q word = some r) : r = q := by
  cases word with
  | nil => exact (Option.some.inj h).symm
  | cons a word =>
    obtain ⟨p, hp, -⟩ := Option.bind_eq_some_iff.mp h
    exact absurd (hd.isCompleteAt q a p hp).1 hq

/-- Reached states are told apart by acceptance alone, since words run through from all of them or
from none. -/
theorem indistinguishable_of_accepts (hd : d.IsWellFormed) {u v : List String}
    (hq : d.run? d.initial u = some q) (hr : d.run? d.initial v = some r)
    (h : ∀ word, (∀ a ∈ word, a ∈ d.alphabet) → d.accepts (u ++ word) = d.accepts (v ++ word)) :
    d.Indistinguishable q r := by
  by_cases hinitial : d.IsCompleteAt d.initial
  · have hcomplete : ∀ {q u}, d.run? d.initial u = some q → d.IsCompleteAt q := by
      intro q u hq
      obtain ⟨q', hcomplete, hq'⟩ :=
        hd.exists_run?_of_isCompleteAt hinitial (hd.mem_alphabet_of_run? hq)
      rw [hq] at hq'
      cases hq'
      exact hcomplete
    intro word hw
    obtain ⟨q', -, hq'⟩ := hd.exists_run?_of_isCompleteAt (hcomplete hq) hw
    obtain ⟨r', -, hr'⟩ := hd.exists_run?_of_isCompleteAt (hcomplete hr) hw
    refine ⟨by rw [hq', hr']; rfl, ?_⟩
    rw [← accepts_append hq, ← accepts_append hr, h word hw]
  · -- Without moves the initial state is the only one that is reached.
    rw [hd.eq_of_run?_of_not_isCompleteAt hinitial hq,
      hd.eq_of_run?_of_not_isCompleteAt hinitial hr]
    exact fun _ _ => ⟨rfl, rfl⟩

end IsWellFormed

end Dfa

/-! ### The lower bound -/

namespace Minimized.IsQuotientOf

variable {m : Minimized} {d e : Dfa} {block : Nat → Nat} {i : Nat}

theorem isReached_iff (h : m.IsQuotientOf d block) (hd : d.IsWellFormed) :
    m.automaton.IsReached i ↔ ∃ q, d.IsReached q ∧ block q = i := by
  have hrun : ∀ word, m.automaton.run? m.automaton.initial word =
      (d.run? d.initial word).map block := by
    intro word
    rw [h.initial, h.run? hd.isClosed hd.initial_lt]
  simp only [Dfa.IsReached, hrun, Option.map_eq_some_iff]
  constructor
  · rintro ⟨word, q, hq, rfl⟩
    exact ⟨q, ⟨word, hq⟩, rfl⟩
  · rintro ⟨q, ⟨word, hq⟩, rfl⟩
    exact ⟨word, q, hq, rfl⟩

/-- A word that leads to a state of the quotient leads to a state of every other automaton for the
same words, and to a different one for every state. -/
theorem encard_isReached_le (h : m.IsQuotientOf d block) (hd : d.IsWellFormed)
    (hblock : ∀ q < d.size, ∀ r < d.size, d.Indistinguishable q r → block q = block r)
    (he : e.IsTotalOver d.alphabet)
    (hsame : ∀ word, (∀ a ∈ word, a ∈ d.alphabet) → e.accepts word = d.accepts word) :
    {i | m.automaton.IsReached i}.encard ≤ e.size := by
  have hstate : ∀ i, m.automaton.IsReached i → ∃ s, ∃ word q, s < e.size ∧
      e.run? e.initial word = some s ∧ d.run? d.initial word = some q ∧ block q = i := by
    intro i hi
    obtain ⟨q, ⟨word, hq⟩, rfl⟩ := (h.isReached_iff hd).mp hi
    obtain ⟨s, hs, hrun⟩ := Dfa.exists_run?_of_exists_successor? he.exists_successor? he.initial_lt
      (hd.mem_alphabet_of_run? hq)
    exact ⟨s, word, q, hs, hrun, hq, rfl⟩
  choose! state hstate using hstate
  have hmaps : Set.MapsTo state {i | m.automaton.IsReached i} (Finset.range e.size) := by
    intro i hi
    obtain ⟨-, -, hlt, -⟩ := hstate i hi
    exact Finset.mem_coe.mpr (Finset.mem_range.mpr hlt)
  have hinj : Set.InjOn state {i | m.automaton.IsReached i} := by
    intro i hi j hj hij
    obtain ⟨u, q, -, hu, hq, rfl⟩ := hstate i hi
    obtain ⟨v, r, -, hv, hr, rfl⟩ := hstate j hj
    -- Both words lead `e` into one state, so `d` goes on alike after them.
    rw [hij] at hu
    refine hblock q (hd.isClosed.run?_lt hd.initial_lt hq) r
      (hd.isClosed.run?_lt hd.initial_lt hr) (hd.indistinguishable_of_accepts hq hr ?_)
    intro word hw
    have hover : ∀ {u q}, d.run? d.initial u = some q → ∀ a ∈ u ++ word, a ∈ d.alphabet := by
      intro u q hq a ha
      exact (List.mem_append.mp ha).elim (hd.mem_alphabet_of_run? hq a) (hw a)
    rw [← hsame _ (hover hq), ← hsame _ (hover hr), Dfa.accepts_append hu, Dfa.accepts_append hv]
  calc {i | m.automaton.IsReached i}.encard
      ≤ (Finset.range e.size : Set Nat).encard := Set.encard_le_encard_of_injOn hmaps hinj
    _ = e.size := by rw [Set.encard_coe_eq_coe_finsetCard, Finset.card_range]

/-- If every state of an automaton is reached, so is every state of the quotient. -/
theorem encard_isReached_eq (h : m.IsQuotientOf d block) (hd : d.IsWellFormed)
    (hreached : ∀ q < d.size, d.IsReached q) :
    {i | m.automaton.IsReached i}.encard = m.size := by
  have hall : {i | m.automaton.IsReached i} = (Finset.range m.size : Set Nat) := by
    ext i
    rw [Set.mem_ofPred_eq, h.isReached_iff hd, Finset.mem_coe, Finset.mem_range]
    constructor
    · rintro ⟨q, ⟨word, hq⟩, rfl⟩
      exact h.block_lt q (hd.isClosed.run?_lt hd.initial_lt hq)
    · intro hi
      obtain ⟨q, hq, rfl⟩ := h.surjective i hi
      exact ⟨q, hreached q hq, rfl⟩
  rw [hall, Set.encard_coe_eq_coe_finsetCard, Finset.card_range]

end Minimized.IsQuotientOf

namespace Graph

/-- Whatever accepts the same words and moves on every symbol has a state for each state of the
minimal automaton that a word reaches. -/
theorem encard_isReached_minimize_le {g : Graph} {c : Conventions} {d : Dfa}
    (h : g.toDfa c = .ok d) :
    ∃ m, d.minimize = .ok m ∧ ∀ e : Dfa, e.IsTotalOver d.alphabet →
      (∀ word, (∀ a ∈ word, a ∈ d.alphabet) → e.accepts word = d.accepts word) →
        {i | m.automaton.IsReached i}.encard ≤ e.size ∧
          ((∀ q < d.size, d.IsReached q) → m.size ≤ e.size) := by
  have hd : d.IsWellFormed := isWellFormed_of_toDfa h
  obtain ⟨m, block, hm, hquot, hblock⟩ := Dfa.exists_minimize hd
  refine ⟨m, hm, fun e he hsame => ?_⟩
  have hle := hquot.encard_isReached_le hd (fun q hq r hr => (hblock q hq r hr).mpr) he hsame
  refine ⟨hle, fun hreached => ?_⟩
  rw [hquot.encard_isReached_eq hd hreached] at hle
  exact Nat.cast_le.mp hle

def oneSink : Graph where
  table := .ofList [("q0", .ofList [("style", "bold")]),
    ("q1", .ofList [("shape", "doublecircle")])]
  edges := [⟨"q0", "q1", .ofList [("label", "a")]⟩, ⟨"q1", "q1", .ofList [("label", "a")]⟩]
  source_mem := by decide
  target_mem := by decide

/-- The graph `oneSink` with a node that no edge touches. -/
def oneSinkAndLonely : Graph where
  table := .ofList [("q0", .ofList [("style", "bold")]),
    ("q1", .ofList [("shape", "doublecircle")]), ("lonely", .ofList [("shape", "circle")])]
  edges := oneSink.edges
  source_mem := by decide
  target_mem := by decide

def oneSinkDfa : Dfa where
  states := [⟨"q0", false, .ofList [("a", 1)]⟩, ⟨"q1", true, .ofList [("a", 1)]⟩]
  alphabet := ["a"]
  initial := 0

def oneSinkAndLonelyDfa : Dfa :=
  { oneSinkDfa with states := oneSinkDfa.states ++ [⟨"lonely", false, .empty⟩] }

theorem toDfa_oneSinkAndLonely : oneSinkAndLonely.toDfa {} = .ok oneSinkAndLonelyDfa := by
  decide +kernel

theorem isTotalOver_oneSinkDfa : oneSinkDfa.IsTotalOver oneSinkAndLonelyDfa.alphabet where
  initial_lt := by decide
  exists_successor? := by decide +kernel

theorem accepts_oneSinkAndLonelyDfa (word : List String) :
    oneSinkDfa.accepts word = oneSinkAndLonelyDfa.accepts word := by
  have hd : oneSink.toDfa {} = .ok oneSinkDfa := by decide +kernel
  exact (Dfa.accepts_append_states (isClosed_of_toDfa hd) (by decide) _ word).symm

/-- Two of the three states that minimization leaves of `oneSinkAndLonely` are reached at most. -/
theorem encard_isReached_oneSinkAndLonely :
    ∃ m, oneSinkAndLonelyDfa.minimize = .ok m ∧ {i | m.automaton.IsReached i}.encard ≤ 2 := by
  obtain ⟨m, hm, hle⟩ := encard_isReached_minimize_le toDfa_oneSinkAndLonely
  exact ⟨m, hm,
    (hle oneSinkDfa isTotalOver_oneSinkDfa fun word _ => accepts_oneSinkAndLonelyDfa word).1⟩

/-- A lonely node is kept as a state of its own, which an automaton for the same words can do
without. -/
theorem size_lt_minimize_oneSinkAndLonely :
    ∃ (d e : Dfa) (m : Minimized), oneSinkAndLonely.toDfa {} = .ok d ∧ d.minimize = .ok m ∧
      e.alphabet = d.alphabet ∧ e.IsTotalOver d.alphabet ∧
      (∀ word, e.accepts word = d.accepts word) ∧ e.size < m.size := by
  have hrun : Refinement.run oneSinkAndLonelyDfa (.start oneSinkAndLonelyDfa) =
      .ok ⟨[.ofList [1], .ofList [0], .ofList [2]]⟩ :=
    Refinement.run_eq_of_runWithin (by decide +kernel : Refinement.runWithin _ 8 _ = _)
  have hsize : oneSinkAndLonelyDfa.minimize.toOption.map Minimized.size = some 3 := by
    rw [Dfa.minimize, Dfa.languagePartition, hrun]
    decide +kernel
  cases hm : oneSinkAndLonelyDfa.minimize with
  | error err =>
    rw [hm] at hsize
    cases hsize
  | ok m =>
    rw [hm] at hsize
    have hlt : oneSinkDfa.size < m.size := by
      rw [show m.size = 3 from Option.some.inj hsize]
      decide
    exact ⟨_, oneSinkDfa, m, toDfa_oneSinkAndLonely, hm, rfl, isTotalOver_oneSinkDfa,
      accepts_oneSinkAndLonelyDfa, hlt⟩

end Graph

end DrawnModels
