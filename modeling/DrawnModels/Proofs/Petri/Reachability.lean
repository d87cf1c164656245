import DrawnModels.Proofs.Petri.Firing
import Mathlib.Logic.Relation

/-!
# Reachable markings

A net moves from marking to marking by firing its transitions. With unlimited counts this is the
exact behaviour of the net. Every marking can be read with unlimited counts, and exact markings
without ω are nothing but numbers of tokens, which a transition changes by addition and subtraction.
-/

namespace DrawnModels

variable {cap : Capacity}

namespace Net

/-- A transition of the net is enabled in `m` and leads to `m'`. -/
def Fires (n : Net) (m m' : Marking cap) : Prop :=
  ∃ t ∈ n.transitionList, m.enables t = true ∧ m.fire? t = some m'

def Reachable (n : Net) : Marking cap → Marking cap → Prop :=
  Relation.ReflTransGen n.Fires

theorem Fires.size_eq {n : Net} {m m' : Marking cap} (h : n.Fires m m') : m'.size = m.size := by
  obtain ⟨t, -, -, hfire⟩ := h
  exact Marking.size_of_fire? hfire

theorem Reachable.size_eq {n : Net} {m m' : Marking cap} (h : n.Reachable m m') :
    m'.size = m.size := by
  induction h with
  | refl => rfl
  | tail _ hstep ih => exact hstep.size_eq.trans ih

end Net

namespace Tokens

/-- The number of tokens, with `k` for ω. -/
def number (k : Nat) : Tokens cap → Nat
  | finite n => n.val
  | omega => k

/-- The same tokens as an unlimited count. -/
def exact : Tokens cap → Tokens .unlimited
  | finite n => finite ⟨n.val, trivial⟩
  | omega => omega

/-- A finite count that cannot grow. -/
def IsFull : Tokens cap → Prop
  | finite n => ¬ cap.Allows (n.val + 1)
  | omega => False

def full {most : Nat} : Tokens (.upTo most) :=
  finite ⟨most, Nat.le_refl most⟩

theorem isFull_iff {most : Nat} {k : Tokens (.upTo most)} : k.IsFull ↔ k = full := by
  cases k with
  | finite n =>
    have hle : n.val ≤ most := n.allowed
    have hval : n.val + 1 ≤ most ↔ n.val ≠ most := by omega
    change ¬ (n.val + 1 ≤ most) ↔ _
    rw [hval, not_not, full, finite.injEq]
    exact ⟨fun h => Count.ext h, fun h => congrArg Count.val h⟩
  | omega => simp [IsFull, full]

theorem not_isFull_unlimited (k : Tokens .unlimited) : ¬ k.IsFull := by
  cases k with
  | finite n => exact not_not_intro trivial
  | omega => exact id

@[simp] theorem number_omega (k : Nat) : (omega : Tokens cap).number k = k := rfl

theorem number_eq_zero_number {k : Tokens cap} (h : k.isOmega = false) (i : Nat) :
    k.number i = k.number 0 := by
  cases k with
  | finite n => rfl
  | omega => cases h

theorem number_of_isOmega {k : Tokens cap} (h : k.isOmega = true) (i : Nat) : k.number i = i := by
  cases k with
  | finite n => cases h
  | omega => rfl

theorem number_mono (c : Tokens cap) {k l : Nat} (h : k ≤ l) : c.number k ≤ c.number l := by
  cases c with
  | finite n => exact Nat.le_refl n.val
  | omega => exact h

@[simp] theorem number_exact (k : Nat) (l : Tokens cap) : l.exact.number k = l.number k := by
  cases l <;> rfl

@[simp] theorem isOmega_exact (k : Tokens cap) : k.exact.isOmega = k.isOmega := by
  cases k <;> rfl

@[simp] theorem atLeast_exact (k : Tokens cap) (i : Nat) : k.exact.atLeast i = k.atLeast i := by
  cases k <;> rfl

theorem exact_injective : Function.Injective (exact : Tokens cap → Tokens .unlimited) := by
  intro k l h
  cases k with
  | finite m =>
    cases l with
    | finite n => exact congrArg finite (Count.ext (congrArg (number 0) h))
    | omega => cases h
  | omega =>
    cases l with
    | finite n => cases h
    | omega => rfl

@[simp] theorem exact_zero : (zero : Tokens cap).exact = zero := by
  refine congrArg finite (Count.ext ?_)
  exact Capacity.clamp_eq_self ((cap.allows_clamp 0).mono (Nat.zero_le _))

@[simp] theorem isOmega_moved (k : Tokens cap) (i o : Nat) : (k.moved i o).isOmega = k.isOmega := by
  cases k <;> rfl

theorem atLeast_iff {k : Tokens cap} {i : Nat} :
    k.atLeast i = true ↔ k.isOmega = true ∨ i ≤ k.number 0 := by
  cases k <;> simp [atLeast, isOmega, number]

/-- Limited counts are at most what exact counting gives. -/
theorem number_moved_le {k : Tokens cap} (h : k.isOmega = false) (i o : Nat) :
    (k.moved i o).number 0 ≤ k.number 0 - i + o := by
  cases k with
  | finite n =>
    cases cap with
    | upTo most => exact Nat.min_le_left _ _
    | unlimited => exact Nat.le_refl _
  | omega => cases h

/-- A count that is not full after a change was counted exactly. -/
theorem number_moved {k : Tokens cap} {i o : Nat} (h : k.isOmega = false)
    (hfull : ¬ (k.moved i o).IsFull) : (k.moved i o).number 0 = k.number 0 - i + o := by
  cases k with
  | finite n =>
    cases cap with
    | upTo most =>
      have hlt : min (n.val - i + o) most + 1 ≤ most := not_not.mp hfull
      change min (n.val - i + o) most = n.val - i + o
      omega
    | unlimited => rfl
  | omega => cases h

theorem exact_moved {k : Tokens cap} {i o : Nat} (hfull : ¬ (k.moved i o).IsFull) :
    (k.moved i o).exact = k.exact.moved i o := by
  cases k with
  | finite n =>
    have hval : (moved i o (finite n)).number 0 = n.val - i + o := number_moved rfl hfull
    exact congrArg finite (Count.ext hval)
  | omega => rfl

end Tokens

namespace Marking

/-- The same marking with unlimited counts. -/
def exact (m : Marking cap) : Marking .unlimited :=
  ⟨m.counts.map Tokens.exact⟩

@[simp] theorem size_exact (m : Marking cap) : m.exact.size = m.size := by
  simp [exact, size]

@[simp] theorem get_exact (m : Marking cap) (p : Nat) : m.exact.get p = (m.get p).exact := by
  by_cases hp : p < m.size
  · rw [get_eq_getElem (Nat.lt_of_lt_of_eq hp m.size_exact.symm), get_eq_getElem hp]
    exact List.getElem_map _
  · have hp := Nat.le_of_not_lt hp
    rw [get_eq_zero (m.size_exact.symm ▸ hp), get_eq_zero hp, Tokens.exact_zero]

theorem exact_injective : Function.Injective (exact : Marking cap → Marking .unlimited) := by
  intro m n h
  have hs : m.size = n.size := by rw [← m.size_exact, h, n.size_exact]
  refine ext_get hs fun p => Tokens.exact_injective ?_
  rw [← get_exact, h, get_exact]

@[simp] theorem enables_exact (m : Marking cap) (t : Transition) :
    m.exact.enables t = m.enables t := by
  simp only [enables, get_exact, Tokens.atLeast_exact]

/-- Firing with limited counts is exact as long as no count becomes full. -/
theorem fire?_exact {m m' : Marking cap} {t : Transition} (h : m.fire? t = some m')
    (hfull : ∀ p < m'.size, ¬ (m'.get p).IsFull) : m.exact.fire? t = some m'.exact := by
  obtain ⟨hen, hout, hs, hget⟩ := fire?_eq_some_iff.mp h
  have hout' : ∀ p ∈ t.outputs, p < m.exact.size := by simpa using hout
  obtain ⟨M, hM⟩ := exists_fire? (m.enables_exact t ▸ hen) hout'
  obtain ⟨-, -, hMs, hMget⟩ := fire?_eq_some_iff.mp hM
  have hsize : M.size = m'.exact.size := by rw [hMs, size_exact, size_exact, hs]
  rw [hM]
  refine congrArg some (ext_get hsize fun p => ?_)
  by_cases hp : p < m'.size
  · rw [hMget, get_exact, get_exact, hget p]
    exact (Tokens.exact_moved (hget p ▸ hfull p hp)).symm
  · have hp' : m'.exact.size ≤ p := m'.size_exact ▸ Nat.le_of_not_lt hp
    rw [get_eq_zero (hsize ▸ hp'), get_eq_zero hp']

theorem isOmega_get_of_fire? {m m' : Marking cap} {t : Transition} (h : m.fire? t = some m')
    (p : Nat) : (m'.get p).isOmega = (m.get p).isOmega := by
  rw [(fire?_eq_some_iff.mp h).2.2.2 p, Tokens.isOmega_moved]

theorem hasOmega_eq_false_iff {m : Marking cap} :
    m.hasOmega = false ↔ ∀ p, (m.get p).isOmega = false := by
  simp only [hasOmega, List.any_eq_false, Bool.not_eq_true]
  constructor
  · intro h p
    by_cases hp : p < m.size
    · rw [get_eq_getElem hp]
      exact h _ (List.getElem_mem hp)
    · rw [get_eq_zero (Nat.le_of_not_lt hp)]
      rfl
  · intro h k hk
    obtain ⟨p, hp, rfl⟩ := List.getElem_of_mem hk
    exact get_eq_getElem hp ▸ h p

theorem not_isFull_of_not_mem {most : Nat} {m : Marking (.upTo most)}
    (h : Tokens.full ∉ m.counts) (p : Nat) (hp : p < m.size) : ¬ (m.get p).IsFull := by
  rw [Tokens.isFull_iff, get_eq_getElem hp]
  intro hfull
  exact h (hfull ▸ List.getElem_mem hp)

theorem hasOmega_resized {m : Marking cap} (h : m.hasOmega = false) (places : Nat) :
    (m.resized places).hasOmega = false := by
  simp only [resized, hasOmega, List.any_map, List.any_eq_false, Function.comp_apply,
    Bool.not_eq_true]
  exact fun p _ => hasOmega_eq_false_iff.mp h p

@[simp] theorem hasOmega_exact (m : Marking cap) : m.exact.hasOmega = m.hasOmega := by
  simp [hasOmega, exact, Function.comp_def]

/-- The exact marking of `places` places with the given numbers of tokens. -/
def ofNumbers (places : Nat) (v : Nat → Nat) : Marking .unlimited :=
  ⟨(List.range places).map fun p => .finite ⟨v p, trivial⟩⟩

@[simp] theorem size_ofNumbers (places : Nat) (v : Nat → Nat) :
    (ofNumbers places v).size = places := by
  simp [ofNumbers, size]

theorem get_ofNumbers {places p : Nat} (v : Nat → Nat) (hp : p < places) :
    (ofNumbers places v).get p = .finite ⟨v p, trivial⟩ := by
  rw [get_eq_getElem (Nat.lt_of_lt_of_eq hp (size_ofNumbers places v).symm)]
  simp [ofNumbers]

theorem hasOmega_ofNumbers (places : Nat) (v : Nat → Nat) :
    (ofNumbers places v).hasOmega = false := by
  simp [hasOmega, ofNumbers, Tokens.isOmega]

theorem eq_ofNumbers {m : Marking .unlimited} (h : m.hasOmega = false) :
    m = ofNumbers m.size fun p => (m.get p).number 0 := by
  apply ext_get (by simp)
  intro p
  by_cases hp : p < m.size
  · rw [get_ofNumbers _ hp]
    have := hasOmega_eq_false_iff.mp h p
    cases hk : m.get p with
    | finite n => rfl
    | omega => rw [hk] at this; cases this
  · have hp := Nat.le_of_not_lt hp
    rw [get_eq_zero hp, get_eq_zero (by simpa using hp)]

end Marking

namespace Net

/-- The exact marking that a net starts from. Places that `initial` leaves out are empty. -/
def startFrom (n : Net) (initial : Marking cap) : Marking .unlimited :=
  (initial.resized n.placeCount).exact

@[simp] theorem size_startFrom (n : Net) (initial : Marking cap) :
    (n.startFrom initial).size = n.placeCount := by
  simp [startFrom]

theorem hasOmega_startFrom (n : Net) {initial : Marking cap} (h : initial.hasOmega = false) :
    (n.startFrom initial).hasOmega = false := by
  rw [startFrom, Marking.hasOmega_exact]
  exact Marking.hasOmega_resized h n.placeCount

/-- With enough tokens a transition changes the numbers by the weights of its arcs. -/
theorem fires_ofNumbers {n : Net} {t : Transition} (ht : t ∈ n.transitionList) {places : Nat}
    (hout : ∀ p ∈ t.outputs, p < places) (hin : ∀ p ∈ t.inputs, p < places) {v : Nat → Nat}
    (hv : ∀ p < places, t.inputWeight p ≤ v p) :
    n.Fires (Marking.ofNumbers places v)
      (Marking.ofNumbers places fun p => v p - t.inputWeight p + t.outputWeight p) := by
  have hen : (Marking.ofNumbers places v).enables t = true := by
    rw [Marking.enables, List.all_eq_true]
    intro p hp
    rw [Marking.get_ofNumbers v (hin p hp)]
    exact decide_eq_true (hv p (hin p hp))
  refine ⟨t, ht, hen, Marking.fire?_eq_some_iff.mpr ⟨hen, by simpa using hout, by simp, ?_⟩⟩
  intro p
  by_cases hp : p < places
  · rw [Marking.get_ofNumbers _ hp, Marking.get_ofNumbers _ hp]
    rfl
  · have hi : t.inputWeight p = 0 := List.count_eq_zero_of_not_mem fun h => hp (hin p h)
    have ho : t.outputWeight p = 0 := List.count_eq_zero_of_not_mem fun h => hp (hout p h)
    have hs : ∀ v, (Marking.ofNumbers places v).get p = .zero := fun v =>
      Marking.get_eq_zero (by simpa using Nat.le_of_not_lt hp)
    rw [hs, hs, hi, ho, Tokens.moved_zero]

end Net

end DrawnModels
