import DrawnModels.Proofs.Coverability.Branches
import DrawnModels.Proofs.Petri.Following
import Mathlib.Data.Finset.Lattice.Fold

/-!
# What ω stands for

Along a branch the net can follow the way from a marking to a later one with exact counts, however
many places have got ω in between: with enough tokens on these places the same transitions fire.
When a marking covers an earlier one, the way between them can be repeated, and what has grown once
grows every time. So every marking in the tree is approached by exact markings with any number of
tokens in the place of ω.

Limited counts only ever lose tokens, so the exact markings have at least as many tokens. They have
equally many unless some count became full.
-/

namespace DrawnModels

variable {cap : Capacity}

theorem Transition.inputWeight_le (t : Transition) (p : Nat) : t.inputWeight p ≤ t.inputs.length :=
  List.count_le_length

namespace Marking

theorem inputWeight_le_number {m : Marking cap} {t : Transition} (h : m.enables t = true) {p : Nat}
    (hp : (m.get p).isOmega = false) : t.inputWeight p ≤ (m.get p).number 0 := by
  have := Tokens.atLeast_iff.mp (enables_iff.mp h p)
  simpa [hp] using this

/-- What fires in `m` fires in exact markings with as many tokens. -/
theorem fires_of_fire? {n : Net} {t : Transition} (ht : t ∈ n.transitionList) {m m' : Marking cap}
    (h : m.fire? t = some m') {v : Nat → Nat}
    (hv : ∀ p < m.size, (m.get p).number t.inputs.length ≤ v p) :
    n.Fires (ofNumbers m.size v)
      (ofNumbers m.size fun p => v p - t.inputWeight p + t.outputWeight p) := by
  obtain ⟨hen, hout, -, -⟩ := fire?_eq_some_iff.mp h
  apply Net.fires_ofNumbers ht hout (fun p => lt_size_of_mem_inputs hen)
  intro p hp
  refine Nat.le_trans ?_ (hv p hp)
  cases hk : (m.get p).isOmega with
  | true => exact Tokens.number_of_isOmega hk _ ▸ t.inputWeight_le p
  | false => exact Tokens.number_eq_zero_number hk _ ▸ inputWeight_le_number hen hk

end Marking

namespace Coverability

open Marking (ofNumbers)

variable {n : Net} {kept : Prop}

/-- From exact markings with enough tokens the net can change every place like from `old` to `m`. -/
def Follows (n : Net) (kept : Prop) (k : Nat) (old m : Marking cap) : Prop :=
  ∀ v : Nat → Nat, (∀ p < old.size, (old.get p).Suffices k (m.get p) (v p)) →
    ∃ w : Nat → Nat, n.Reachable (ofNumbers old.size v) (ofNumbers old.size w) ∧
      ∀ p < old.size, (old.get p).Change kept k (m.get p) (v p) (w p)

namespace Follows

variable {k : Nat} {old m m' : Marking cap}

theorem refl (m : Marking cap) : Follows n kept 0 m m :=
  fun v _ => ⟨v, Relation.ReflTransGen.refl, fun p _ => Tokens.Change.refl (m.get p) (v p)⟩

theorem fire (h : Follows n kept k old m) (hs : old.size = m.size) {t : Transition}
    (ht : t ∈ n.transitionList) (hfire : m.fire? t = some m')
    (hfull : kept → ∀ p < m.size, ¬ (m.get p).IsFull) :
    Follows n kept (k + t.inputs.length) old m' := by
  obtain ⟨hen, -, -, hget⟩ := Marking.fire?_eq_some_iff.mp hfire
  intro v hv
  have hv' : ∀ p < old.size, (old.get p).Suffices (k + t.inputs.length) (m.get p) (v p) := by
    intro p hp
    have := hv p hp
    rw [hget p] at this
    exact this.of_moved
  obtain ⟨w, hreach, hchange⟩ := h v fun p hp => (hv' p hp).mono (Nat.le_add_right k _)
  have hw : ∀ p < old.size, (m.get p).number t.inputs.length ≤ w p := fun p hp =>
    (hchange p hp).number_le (hv' p hp)
  have hstep := Marking.fires_of_fire? ht hfire (hs ▸ hw)
  rw [← hs] at hstep hfull
  refine ⟨_, hreach.tail hstep, fun p hp => ?_⟩
  rw [hget p]
  exact (hchange p hp).moved (hw p hp) (t.inputWeight_le p) (Marking.inputWeight_le_number hen)
    fun hkept => hfull hkept p hp

/-- Places that get ω may have to be filled before. -/
theorem raise (h : Follows n kept k old m)
    (hm : ∀ p, m'.get p = .omega ∨ m'.get p = m.get p) :
    ∃ l, Follows n kept l old m' := by
  let most := (Finset.range old.size).sup fun p => (old.get p).number 0
  have hmost : ∀ p < old.size, (old.get p).number 0 ≤ most := fun p hp =>
    Finset.le_sup (f := fun p => (old.get p).number 0) (Finset.mem_range.mpr hp)
  refine ⟨k + most, fun v hv => ?_⟩
  obtain ⟨w, hreach, hchange⟩ := h v fun p hp => (hv p hp).of_raised (hmost p hp) (hm p)
  exact ⟨w, hreach, fun p hp => (hchange p hp).raised (hmost p hp) (hm p)⟩

/-- A way to at least as many tokens can be taken again and again. -/
theorem iterate (h : Follows n kept k old m) (hle : ∀ p, old.get p ≤ m.get p) (j : Nat)
    (v : Nat → Nat) (hv : ∀ p < old.size, (old.get p).Suffices (j * k) (m.get p) (v p)) :
    ∃ w : Nat → Nat, n.Reachable (ofNumbers old.size v) (ofNumbers old.size w) ∧
      ∀ p < old.size, (old.get p).Repeats kept j k (m.get p) (v p) (w p) := by
  induction j generalizing v with
  | zero => exact ⟨v, Relation.ReflTransGen.refl, fun p _ => Tokens.Repeats.zero k _ _ (v p)⟩
  | succ j ih =>
    have honce : k ≤ (j + 1) * k := Nat.le_mul_of_pos_left k (Nat.succ_pos j)
    obtain ⟨u, hu, hchange⟩ := h v fun p hp => (hv p hp).mono honce
    obtain ⟨w, hw, hrest⟩ := ih u fun p hp => (hchange p hp).suffices (hv p hp) (hle p)
    exact ⟨w, hu.trans hw, fun p hp => (hrest p hp).succ (hchange p hp) (hle p)⟩

end Follows

/-- The net reaches exact markings that stand for `m`, with any number of tokens in the place of
ω. -/
def Approached (n : Net) (kept : Prop) (start : Marking .unlimited) (m : Marking cap) : Prop :=
  ∀ k : Nat, ∃ v : Nat → Nat, n.Reachable start (ofNumbers m.size v) ∧
    ∀ p < m.size, (m.get p).Approximates kept k (v p)

namespace Approached

variable {start : Marking .unlimited} {m m' : Marking cap}

theorem root (h : m.hasOmega = false) : Approached n kept m.exact m := by
  intro k
  have hexact := Marking.eq_ofNumbers (m.hasOmega_exact.trans h)
  simp only [Marking.size_exact, Marking.get_exact, Tokens.number_exact] at hexact
  refine ⟨fun p => (m.get p).number 0, ?_, fun p _ => ⟨?_, fun _ _ _ => rfl⟩⟩
  · rw [← hexact]
    exact Relation.ReflTransGen.refl
  · have hω := Marking.hasOmega_eq_false_iff.mp h p
    exact Nat.le_of_eq (Tokens.number_eq_zero_number hω k)

theorem fire (h : Approached n kept start m) {t : Transition} (ht : t ∈ n.transitionList)
    (hfire : m.fire? t = some m') (hfull : kept → ∀ p < m.size, ¬ (m.get p).IsFull) :
    Approached n kept start m' := by
  obtain ⟨-, -, hs, hget⟩ := Marking.fire?_eq_some_iff.mp hfire
  intro k
  obtain ⟨v, hreach, hv⟩ := h (k + t.inputs.length)
  have hstep := Marking.fires_of_fire? ht hfire fun p hp =>
    Nat.le_trans (Tokens.number_mono _ (Nat.le_add_left _ k)) (hv p hp).le
  refine ⟨_, hs ▸ hreach.tail hstep, fun p hp => ?_⟩
  rw [hs] at hp
  rw [hget p]
  exact (hv p hp).moved (t.inputWeight_le p) fun hkept => hfull hkept p hp

theorem accelerate {k : Nat} {old : Marking cap} (h : Approached n kept start m)
    (hfollows : Follows n kept k old m) (hcovers : m.covers old = true) :
    Approached n kept start (m.accelerate old) := by
  obtain ⟨hs, hle⟩ := Marking.covers_iff.mp hcovers
  intro j
  obtain ⟨v, hreach, hv⟩ := h (j + j * k)
  obtain ⟨w, hw, hrepeats⟩ := hfollows.iterate hle j v fun p hp =>
    (hv p (hs ▸ hp)).suffices (hle p)
  rw [← hs] at hw hrepeats
  rw [← m.size_accelerate old] at hw hreach
  refine ⟨w, hreach.trans hw, fun p hp => ?_⟩
  rw [Marking.size_accelerate] at hp
  exact (hv p hp).repeats (hrepeats p hp) (Marking.get_accelerate_cases hcovers p)

end Approached

namespace Branch

variable {root m : Marking cap} {path : List (Marking cap)}

theorem exists_follows (h : Branch n root path m)
    (hfull : kept → ∀ m' ∈ path, ∀ p < m'.size, ¬ (m'.get p).IsFull) :
    ∀ old ∈ m :: path, ∃ k, Follows n kept k old m := by
  induction h with
  | root =>
    intro old hold
    rw [List.mem_singleton.mp hold]
    exact ⟨0, Follows.refl root⟩
  | @fire path m t m' hbranch ht hen hfire ih =>
    intro old hold
    rcases List.mem_cons.mp hold with rfl | hold
    · exact ⟨0, Follows.refl _⟩
    · have hpath := fun hkept => (List.forall_mem_cons.mp (hfull hkept)).2
      obtain ⟨k, hk⟩ := ih hpath old hold
      have hm := fun hkept => hfull hkept m List.mem_cons_self
      exact (hk.fire (hbranch.size_eq_end hold) ht hfire hm).raise (Pending.get_grown_cases path m')

/-- Whatever stands at the end of a branch is approached by exact markings. -/
theorem approached (h : Branch n root path m) (hroot : root.hasOmega = false)
    (hfull : kept → ∀ m' ∈ path, ∀ p < m'.size, ¬ (m'.get p).IsFull) :
    Approached n kept root.exact m := by
  induction h with
  | root => exact Approached.root hroot
  | @fire path m t m' hbranch ht hen hfire ih =>
    have hpath := fun hkept => (List.forall_mem_cons.mp (hfull hkept)).2
    have hm := fun hkept => hfull hkept m List.mem_cons_self
    have happroached := (ih hpath).fire ht hfire hm
    rcases Pending.grown_cases path m' with hgrown | ⟨old, hold, hcovers, hgrown⟩ <;> rw [hgrown]
    · exact happroached
    · have hold := List.mem_cons_of_mem m hold
      obtain ⟨k, hk⟩ := hbranch.exists_follows hpath old hold
      have hcovers := Marking.covers_of_strictlyCovers hcovers
      exact happroached.accelerate (hk.fire (hbranch.size_eq_end hold) ht hfire hm) hcovers

end Branch

/-- Every marking in the tree is approached by exact markings that the net reaches: they have at
least its finite counts, and any number of tokens in the place of ω. The finite counts are reached
exactly unless some marking in the tree has the largest count. -/
theorem exists_reachable_of_mem_explore {most : Nat} {n : Net} {initial : Marking (.upTo most)}
    (h : initial.hasOmega = false) {m : Marking (.upTo most)}
    (hm : m ∈ (explore n initial).markings) (k : Nat) :
    ∃ M : Marking .unlimited, n.Reachable (n.startFrom initial) M ∧
      M.hasOmega = false ∧
      (∀ p < n.placeCount, ((m.get p).isOmega = false → (m.get p).exact ≤ M.get p) ∧
        ((m.get p).isOmega = true → (M.get p).atLeast k = true)) ∧
      ((∀ m' ∈ (explore n initial).markings, Tokens.full ∉ m'.counts) →
        ∀ p < n.placeCount, (m.get p).isOmega = false → M.get p = (m.get p).exact) := by
  let kept := ∀ m' ∈ (explore n initial).markings, Tokens.full ∉ m'.counts
  obtain ⟨path, hbranch, hpath⟩ := (complete_explore n initial).nodes m hm
  have hfull : kept → ∀ m' ∈ path, ∀ p < m'.size, ¬ (m'.get p).IsFull := fun hkept m' hm' =>
    Marking.not_isFull_of_not_mem (hkept m' (hpath m' hm'))
  obtain ⟨v, hreach, hv⟩ := hbranch.approached (Marking.hasOmega_resized h n.placeCount) hfull k
  have hs : m.size = n.placeCount := by
    rw [hbranch.size_eq m List.mem_cons_self, Marking.size_resized]
  rw [hs] at hreach hv
  refine ⟨_, hreach, Marking.hasOmega_ofNumbers _ _, ?_, ?_⟩
  · intro p hp
    rw [Marking.get_ofNumbers v hp]
    have hle := (hv p hp).le
    constructor
    · intro hω
      rw [Tokens.number_eq_zero_number hω] at hle
      apply Tokens.le_iff.mpr
      exact Or.inr ⟨(m.get p).isOmega_exact.trans hω, by rwa [Tokens.number_exact]⟩
    · intro hω
      rw [Tokens.number_of_isOmega hω] at hle
      exact decide_eq_true hle
  · intro hkept p hp hω
    rw [Marking.get_ofNumbers v hp]
    apply Tokens.eq_of_number rfl ((m.get p).isOmega_exact.trans hω)
    rw [Tokens.number_exact]
    exact (hv p hp).eq hω hkept (Marking.not_isFull_of_not_mem (hkept m hm) p (hs ▸ hp))

theorem exists_reachable_producer :
    Marking.hasOmega (.zero 1 : Marking .word) = false ∧
      ⟨[.omega]⟩ ∈ (explore Net.producer (.zero 1 : Marking .word)).markings ∧
      (∀ m' ∈ (explore Net.producer (.zero 1 : Marking .word)).markings,
        Tokens.full ∉ m'.counts) ∧
      ∃ M : Marking .unlimited,
        Net.producer.Reachable (Net.producer.startFrom (.zero 1 : Marking .word)) M ∧
        M.hasOmega = false ∧ (M.get 0).atLeast 1000 = true := by
  have hm : ⟨[.omega]⟩ ∈ (explore Net.producer (.zero 1 : Marking .word)).markings := by
    simp [markings_producer]
  obtain ⟨M, hreach, hω, hM, -⟩ := exists_reachable_of_mem_explore rfl hm 1000
  refine ⟨rfl, hm, not_full_producer, M, hreach, hω, ?_⟩
  exact (hM 0 (by decide +kernel)).2 rfl

end Coverability

end DrawnModels
