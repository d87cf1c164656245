import DrawnModels.Proofs.Petri.Covering

/-!
# Following counts with exact numbers

Exact numbers follow what happens to a count: a number that is large enough for the change from one
count to another changes by at least as much, and a number in the place of ω loses only so many
tokens. Where counts are `kept`, that is, where none of them has been cut off at the limit, the
change is the same.
-/

namespace DrawnModels

variable {cap : Capacity}

namespace Tokens

/-- `v` tokens are enough for a change from `old` to `new`, with `k` of them for ω. -/
structure Suffices (k : Nat) (old new : Tokens cap) (v : Nat) : Prop where
  ofOmega : new.isOmega = true → k ≤ v
  le : new.isOmega = false → old.number 0 ≤ v

/-- The change from `v` to `w` follows the one from `old` to `new`, with a loss of up to `k` tokens
for ω. -/
structure Change (kept : Prop) (k : Nat) (old new : Tokens cap) (v w : Nat) : Prop where
  ofOmega : new.isOmega = true → v ≤ w + k
  le : new.isOmega = false → v + new.number 0 ≤ w + old.number 0
  eq : new.isOmega = false → kept → ¬ new.IsFull → v + new.number 0 = w + old.number 0

/-- The change from `v` to `w` follows `j` times the one from `old` to `new`. -/
structure Repeats (kept : Prop) (j k : Nat) (old new : Tokens cap) (v w : Nat) : Prop where
  ofOmega : new.isOmega = true → v ≤ w + j * k
  le : new.isOmega = false → v ≤ w
  grows : new.isOmega = false → old < new → v + j ≤ w
  eq : new.isOmega = false → kept → ¬ new.IsFull → old = new → w = v

/-- `v` tokens stand for a count, with `k` of them for ω. -/
structure Approximates (kept : Prop) (k : Nat) (c : Tokens cap) (v : Nat) : Prop where
  le : c.number k ≤ v
  eq : c.isOmega = false → kept → ¬ c.IsFull → v = c.number 0

theorem number_le_number {k l : Tokens cap} (h : k ≤ l) (hl : l.isOmega = false) :
    k.number 0 ≤ l.number 0 := by
  rcases le_iff.mp h with hω | ⟨-, hle⟩
  · rw [hl] at hω
    cases hω
  · exact hle

theorem number_lt_number {k l : Tokens cap} (h : k < l) (hl : l.isOmega = false) :
    k.number 0 < l.number 0 := by
  rcases (lt_iff.mp h).2 with hω | hlt
  · rw [hl] at hω
    cases hω
  · exact hlt

variable {kept : Prop} {j k l i o v u w : Nat} {old mid new : Tokens cap}

/-! ### One change -/

theorem Suffices.mono (h : Suffices l old new v) (hkl : k ≤ l) : Suffices k old new v where
  ofOmega hk := Nat.le_trans hkl (h.ofOmega hk)
  le := h.le

theorem Suffices.of_moved (h : Suffices k old (mid.moved i o) v) : Suffices k old mid v := by
  obtain ⟨hω, hle⟩ := h
  rw [isOmega_moved] at hω hle
  exact ⟨hω, hle⟩

/-- What is to become ω has to be filled before. -/
theorem Suffices.of_raised (h : Suffices (k + l) old new v) (hold : old.number 0 ≤ l)
    (hnew : new = omega ∨ new = mid) : Suffices k old mid v := by
  rcases hnew with rfl | rfl
  · have := h.ofOmega rfl
    constructor
    · intro _
      omega
    · intro _
      omega
  · exact h.mono (Nat.le_add_right k l)

theorem Change.refl (c : Tokens cap) (v : Nat) : Change kept 0 c c v v where
  ofOmega _ := Nat.le_refl v
  le _ := Nat.le_refl _
  eq _ _ _ := rfl

theorem Change.number_le (h : Change kept k old mid v w) (hv : Suffices (k + l) old mid v) :
    mid.number l ≤ w := by
  cases hmid : mid.isOmega with
  | true =>
    have := h.ofOmega hmid
    have := hv.ofOmega hmid
    rw [number_of_isOmega hmid]
    omega
  | false =>
    have := h.le hmid
    have := hv.le hmid
    rw [number_eq_zero_number hmid]
    omega

theorem Change.moved (h : Change kept k old mid v w) (hw : mid.number l ≤ w) (hi : i ≤ l)
    (hmid : mid.isOmega = false → i ≤ mid.number 0) (hfull : kept → ¬ mid.IsFull) :
    Change kept (k + l) old (mid.moved i o) v (w - i + o) where
  ofOmega hω := by
    rw [isOmega_moved] at hω
    have := h.ofOmega hω
    omega
  le hω := by
    rw [isOmega_moved] at hω
    rw [number_eq_zero_number hω] at hw
    have := h.le hω
    have := hmid hω
    have := number_moved_le hω i o
    omega
  eq hω hkept hnot := by
    rw [isOmega_moved] at hω
    rw [number_eq_zero_number hω] at hw
    have := h.eq hω hkept (hfull hkept)
    have := hmid hω
    have := number_moved hω hnot
    omega

theorem Change.raised (h : Change kept k old mid v w) (hold : old.number 0 ≤ l)
    (hnew : new = omega ∨ new = mid) : Change kept (k + l) old new v w := by
  rcases hnew with rfl | rfl
  · refine ⟨fun _ => ?_, (fun hω => nomatch hω), (fun hω => nomatch hω)⟩
    cases hmid : mid.isOmega with
    | true =>
      have := h.ofOmega hmid
      omega
    | false =>
      have := h.le hmid
      omega
  · refine ⟨fun hω => ?_, h.le, h.eq⟩
    have := h.ofOmega hω
    omega

/-! ### Changes that are repeated -/

theorem Repeats.zero (k : Nat) (old new : Tokens cap) (v : Nat) : Repeats kept 0 k old new v v where
  ofOmega _ := Nat.le_add_right v _
  le _ := Nat.le_refl v
  grows _ _ := Nat.le_refl v
  eq _ _ _ _ := rfl

theorem Change.suffices (h : Change kept k old new v u) (hv : Suffices ((j + 1) * k) old new v)
    (hle : old ≤ new) : Suffices (j * k) old new u where
  ofOmega hω := by
    have := h.ofOmega hω
    have := hv.ofOmega hω
    rw [Nat.succ_mul] at this
    omega
  le hω := by
    have := h.le hω
    have := hv.le hω
    have := number_le_number hle hω
    omega

theorem Repeats.succ (hrest : Repeats kept j k old new u w) (h : Change kept k old new v u)
    (hle : old ≤ new) : Repeats kept (j + 1) k old new v w where
  ofOmega hω := by
    have := h.ofOmega hω
    have := hrest.ofOmega hω
    rw [Nat.succ_mul]
    omega
  le hω := by
    have := h.le hω
    have := hrest.le hω
    have := number_le_number hle hω
    omega
  grows hω hlt := by
    have := h.le hω
    have := hrest.grows hω hlt
    have := number_lt_number hlt hω
    omega
  eq hω hkept hnot heq := by
    have := h.eq hω hkept hnot
    have := hrest.eq hω hkept hnot heq
    rw [heq] at *
    omega

/-! ### Numbers that stand for counts -/

theorem Approximates.moved (h : Approximates kept (k + l) mid v) (hi : i ≤ l)
    (hfull : kept → ¬ mid.IsFull) : Approximates kept k (mid.moved i o) (v - i + o) := by
  have hle := h.le
  constructor
  · cases hω : mid.isOmega with
    | true =>
      rw [number_of_isOmega hω] at hle
      rw [number_of_isOmega ((isOmega_moved mid i o).trans hω)]
      omega
    | false =>
      rw [number_eq_zero_number hω] at hle
      rw [number_eq_zero_number ((isOmega_moved mid i o).trans hω)]
      have := number_moved_le hω i o
      omega
  · intro hω hkept hnot
    rw [isOmega_moved] at hω
    rw [h.eq hω hkept (hfull hkept), number_moved hω hnot]

theorem Approximates.suffices (h : Approximates kept (j + j * k) new v) (hle : old ≤ new) :
    Suffices (j * k) old new v := by
  have hv := h.le
  constructor
  · intro hω
    rw [number_of_isOmega hω] at hv
    omega
  · intro hω
    rw [number_eq_zero_number hω] at hv
    exact Nat.le_trans (number_le_number hle hω) hv

/-- What has grown `j` times stands for ω with `j` tokens. -/
theorem Approximates.repeats {c : Tokens cap} (h : Approximates kept (j + j * k) new v)
    (hrepeats : Repeats kept j k old new v w)
    (hc : old < new ∧ c = omega ∨ old = new ∧ c = new) : Approximates kept j c w := by
  have hv := h.le
  -- Where there was ω before, enough tokens are left.
  have hleft : new.isOmega = true → j ≤ w := by
    intro hω
    rw [number_of_isOmega hω] at hv
    have := hrepeats.ofOmega hω
    omega
  rcases hc with ⟨hlt, rfl⟩ | ⟨heq, rfl⟩
  · refine ⟨?_, fun hω => nomatch hω⟩
    rw [number_omega]
    cases hω : new.isOmega with
    | true => exact hleft hω
    | false =>
      have := hrepeats.grows hω hlt
      omega
  · constructor
    · cases hω : c.isOmega with
      | true =>
        rw [number_of_isOmega hω]
        exact hleft hω
      | false =>
        rw [number_eq_zero_number hω] at hv ⊢
        exact Nat.le_trans hv (hrepeats.le hω)
    · intro hω hkept hnot
      rw [hrepeats.eq hω hkept hnot heq]
      exact h.eq hω hkept hnot

end Tokens

end DrawnModels
