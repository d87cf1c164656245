import DrawnModels.Proofs.Petri.Covering

/-!
# Monotonicity

What fires in a marking fires in every marking that covers it, and the results cover each other as
well. A count that is cut off at the limit can lose its lead over another count, but it does not
fall behind. So whole sequences of transitions that fire in a marking fire wherever it is covered.
-/

namespace DrawnModels

variable {cap : Capacity}

theorem Capacity.clamp_mono (cap : Capacity) {m n : Nat} (h : m ≤ n) :
    cap.clamp m ≤ cap.clamp n := by
  cases cap with
  | upTo most => simp only [clamp]; omega
  | unlimited => exact h

namespace Tokens

variable {k l : Tokens cap}

theorem atLeast_of_le (h : k ≤ l) {i : Nat} (hi : k.atLeast i = true) : l.atLeast i = true := by
  rw [le_iff] at h
  rw [atLeast_iff] at hi ⊢
  rcases h with hl | ⟨hk, hle⟩
  · exact Or.inl hl
  · simp only [hk, Bool.false_eq_true, false_or] at hi
    exact Or.inr (Nat.le_trans hi hle)

theorem moved_le_moved (h : k ≤ l) (i o : Nat) : k.moved i o ≤ l.moved i o := by
  cases l with
  | omega => trivial
  | finite n =>
    cases k with
    | omega => exact False.elim h
    | finite m =>
      have hmn : m.val ≤ n.val := h
      exact cap.clamp_mono (by omega)

end Tokens

namespace Marking

variable {m n n' : Marking cap} {t : Transition}

theorem enables_of_covers (h : m.covers n = true) (hen : n.enables t = true) :
    m.enables t = true := by
  rw [enables_iff] at hen ⊢
  intro p
  exact Tokens.atLeast_of_le ((covers_iff.mp h).2 p) (hen p)

/-- A transition keeps one marking above another. -/
theorem exists_fire?_of_covers (h : m.covers n = true) (hn : n.fire? t = some n') :
    ∃ m', m.fire? t = some m' ∧ m'.covers n' = true := by
  obtain ⟨hs, hle⟩ := covers_iff.mp h
  obtain ⟨hen, hout, hsn, hgetn⟩ := fire?_eq_some_iff.mp hn
  obtain ⟨m', hm'⟩ := exists_fire? (enables_of_covers h hen) (hs.symm ▸ hout)
  obtain ⟨-, -, hsm, hgetm⟩ := fire?_eq_some_iff.mp hm'
  have hs' : m'.size = n'.size := by rw [hsm, hs, hsn]
  have hle' : ∀ p, n'.get p ≤ m'.get p := by
    intro p
    rw [hgetn p, hgetm p]
    exact Tokens.moved_le_moved (hle p) _ _
  exact ⟨m', hm', covers_iff.mpr ⟨hs', hle'⟩⟩

def fireAll? (m : Marking cap) (transitions : List Transition) : Option (Marking cap) :=
  transitions.foldlM fire? m

/-- Transitions that fire one after the other in a marking do so in every marking that covers it,
and the marking that is reached there covers the one that is reached here. -/
theorem exists_fireAll?_of_covers {transitions : List Transition} (h : m.covers n = true)
    (hn : n.fireAll? transitions = some n') :
    ∃ m', m.fireAll? transitions = some m' ∧ m'.covers n' = true := by
  induction transitions generalizing m n with
  | nil =>
    cases hn
    exact ⟨m, rfl, h⟩
  | cons t transitions ih =>
    obtain ⟨k, hk, hn⟩ := Option.bind_eq_some_iff.mp hn
    obtain ⟨l, hl, hcovers⟩ := exists_fire?_of_covers h hk
    obtain ⟨m', hm', hcovers'⟩ := ih hcovers hn
    exact ⟨m', Option.bind_eq_some_iff.mpr ⟨l, hl, hm'⟩, hcovers'⟩

/-! ### A lead that is lost -/

/-- One token on the first place, and one less than the limit on the second. -/
def behind : Marking .word :=
  ⟨[.finite (.ofNat _ 1), .finite (.ofNat _ 18446744073709551614)]⟩

/-- Any number of tokens on the first place, and as many as the limit allows on the second. -/
def ahead : Marking .word :=
  ⟨[.omega, .full]⟩

/-- Moves the token to the second place and puts another one there. -/
def moveAndPut : List Transition :=
  [⟨[0], [1]⟩, ⟨[], [1]⟩]

/-- The lead on the second place is lost to the limit. -/
theorem covers_fireAll?_ahead :
    ahead.covers behind = true ∧ behind.fireAll? moveAndPut = some ⟨[.zero, .full]⟩ ∧
      ∃ m, ahead.fireAll? moveAndPut = some m ∧ m.covers ⟨[.zero, .full]⟩ = true := by
  have hcovers : ahead.covers behind = true := by decide +kernel
  have hfires : behind.fireAll? moveAndPut = some ⟨[.zero, .full]⟩ := by decide +kernel
  exact ⟨hcovers, hfires, exists_fireAll?_of_covers hcovers hfires⟩

end Marking

end DrawnModels
