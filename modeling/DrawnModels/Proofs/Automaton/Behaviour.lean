import DrawnModels.Automaton.Basic
import DrawnModels.Proofs.Collection.Classes

/-!
# Behaviour of states

Two states are indistinguishable if every word over the alphabet runs through from both or from
neither, and ends in an accepting state from both or from neither. A partition of the states is a
congruence if the states of a class accept alike and move into the same classes. States that a
congruence puts into one class are indistinguishable.
-/

namespace DrawnModels

namespace Dfa

/-- Every move leads to a state. -/
def IsClosed (d : Dfa) : Prop :=
  ∀ q a p, d.successor? q a = some p → p < d.size

/-- The state moves on every symbol of the alphabet. -/
def IsCompleteAt (d : Dfa) (q : Nat) : Prop :=
  ∀ a ∈ d.alphabet, ∃ p, d.successor? q a = some p

/-- What the automata that are read off graphs have in common. A state without moves on all symbols
has no moves at all, neither from it nor to it. -/
structure IsWellFormed (d : Dfa) : Prop where
  isClosed : d.IsClosed
  mem_alphabet : ∀ q a p, d.successor? q a = some p → a ∈ d.alphabet
  nodup_names : d.names.Nodup
  initial_lt : d.initial < d.size
  isCompleteAt : ∀ q a p, d.successor? q a = some p → d.IsCompleteAt q ∧ d.IsCompleteAt p

theorem IsClosed.run?_lt {d : Dfa} (h : d.IsClosed) {q r : Nat} (hq : q < d.size)
    {word : List String} (hr : d.run? q word = some r) : r < d.size := by
  induction word generalizing q with
  | nil => cases hr; exact hq
  | cons a word ih =>
    obtain ⟨p, hp, hr⟩ := Option.bind_eq_some_iff.mp hr
    exact ih (h q a p hp) hr

theorem run?_append (d : Dfa) (q : Nat) (u v : List String) :
    d.run? q (u ++ v) = (d.run? q u).bind fun r => d.run? r v := by
  induction u generalizing q with
  | nil => rfl
  | cons a u ih =>
    rw [List.cons_append, run?, run?, Option.bind_assoc]
    congr 1
    funext p
    exact ih p

theorem accepts_append {d : Dfa} {q : Nat} {u : List String} (hq : d.run? d.initial u = some q)
    (v : List String) : d.accepts (u ++ v) = (d.run? q v).any d.isAccepting := by
  rw [accepts, run?_append, hq, Option.bind_some]

def Indistinguishable (d : Dfa) (p q : Nat) : Prop :=
  ∀ word : List String, (∀ a ∈ word, a ∈ d.alphabet) →
    (d.run? p word).isSome = (d.run? q word).isSome ∧
    (d.run? p word).any d.isAccepting = (d.run? q word).any d.isAccepting

variable {d : Dfa} {p q : Nat}

theorem Indistinguishable.symm (h : d.Indistinguishable p q) : d.Indistinguishable q p :=
  fun word hw => ⟨(h word hw).1.symm, (h word hw).2.symm⟩

theorem Indistinguishable.isAccepting_eq (h : d.Indistinguishable p q) :
    d.isAccepting p = d.isAccepting q := by
  simpa [run?] using (h [] (by simp)).2

theorem Indistinguishable.successor? (h : d.Indistinguishable p q) {a : String}
    (ha : a ∈ d.alphabet) {p' : Nat} (hp : d.successor? p a = some p') :
    ∃ q', d.successor? q a = some q' ∧ d.Indistinguishable p' q' := by
  have hone := (h [a] (by simpa using ha)).1
  cases hq : d.successor? q a with
  | none => simp [run?, hp, hq] at hone
  | some q' =>
    refine ⟨q', rfl, fun word hw => ?_⟩
    have hword := h (a :: word) (by simpa [ha] using hw)
    simpa [run?, hp, hq] using hword

def movesInto (d : Dfa) (q : Nat) (a : String) (b : SortedSet Nat) : Bool :=
  (d.successor? q a).any (· ∈ b)

theorem movesInto_iff {a : String} {b : SortedSet Nat} :
    d.movesInto q a b = true ↔ ∃ q', d.successor? q a = some q' ∧ q' ∈ b := by
  rw [movesInto, Option.any_eq_true_iff_get]
  cases d.successor? q a <;> simp

end Dfa

/-- States of one class accept alike and move into the same classes on every symbol. -/
structure Partition.IsCongruence (p : Partition Nat) (d : Dfa) : Prop where
  accepting : ∀ c ∈ p.classes, ∀ q ∈ c, ∀ r ∈ c, d.isAccepting q = d.isAccepting r
  moves : ∀ c ∈ p.classes, ∀ q ∈ c, ∀ r ∈ c, ∀ a ∈ d.alphabet, ∀ e ∈ p.classes,
    d.movesInto q a e = d.movesInto r a e

namespace Partition.IsCongruence

variable {p : Partition Nat} {d : Dfa}

/-- In a congruence, where one state of a class moves, the others follow into the same class. -/
theorem successor? (h : p.IsCongruence d) (hp : p.Divides (List.range d.size)) (hd : d.IsClosed)
    {c : SortedSet Nat} (hc : c ∈ p.classes) {q r : Nat} (hq : q ∈ c) (hr : r ∈ c) {a : String}
    (ha : a ∈ d.alphabet) {q' : Nat} (hq' : d.successor? q a = some q') :
    ∃ r' e, d.successor? r a = some r' ∧ e ∈ p.classes ∧ q' ∈ e ∧ r' ∈ e := by
  obtain ⟨e, he, hqe⟩ := hp.exists_class (List.mem_range.mpr (hd q a q' hq'))
  have hmove : d.movesInto q a e = true := Dfa.movesInto_iff.mpr ⟨q', hq', hqe⟩
  rw [h.moves c hc q hq r hr a ha e he] at hmove
  obtain ⟨r', hr', hre⟩ := Dfa.movesInto_iff.mp hmove
  exact ⟨r', e, hr', he, hqe, hre⟩

theorem indistinguishable (h : p.IsCongruence d) (hp : p.Divides (List.range d.size))
    (hd : d.IsClosed) {c : SortedSet Nat} (hc : c ∈ p.classes) {q r : Nat} (hq : q ∈ c)
    (hr : r ∈ c) : d.Indistinguishable q r := by
  intro word
  induction word generalizing c q r with
  | nil => intro _; simp [Dfa.run?, h.accepting c hc q hq r hr]
  | cons a word ih =>
    intro hw
    obtain ⟨ha, hw⟩ := List.forall_mem_cons.mp hw
    cases hq' : d.successor? q a with
    | some q' =>
      obtain ⟨r', e, hr', he, hqe, hre⟩ := h.successor? hp hd hc hq hr ha hq'
      simpa [Dfa.run?, hq', hr'] using ih he hqe hre hw
    | none =>
      have hr' : d.successor? r a = none := by
        by_contra hne
        obtain ⟨r', hr'⟩ := Option.ne_none_iff_exists'.mp hne
        obtain ⟨q', e, hsome, -⟩ := h.successor? hp hd hc hr hq ha hr'
        rw [hq'] at hsome
        cases hsome
      simp [Dfa.run?, hq', hr']

end Partition.IsCongruence

end DrawnModels
