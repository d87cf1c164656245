import DrawnModels.Proofs.Coverability.Branches
import DrawnModels.Proofs.Petri.Monotonicity

/-!
# Nothing reachable is missed

A marking with at least as many tokens as another can fire whatever the other can, and has at least
as many tokens afterwards, as long as no count runs into the limit. Growing only adds tokens. So
markings that are closed under firing and growing cover everything that the net reaches from one of
them, and it does not matter against which markings they have grown.
-/

namespace DrawnModels

variable {cap : Capacity}

namespace Coverability

variable {n : Net} {root : Marking cap} {S : Marking cap → Prop}

/-- What fires in an exact marking fires in a closed marking that covers it, and some closed marking
covers the result. -/
theorem Closed.covers_step (hS : Closed n root S)
    (hfull : ∀ m, S m → ∀ p < m.size, ¬ (m.get p).IsFull) {m : Marking cap} (hm : S m)
    {M M' : Marking .unlimited} (hcovers : m.exact.covers M = true) (h : n.Fires M M') :
    ∃ m', S m' ∧ m'.exact.covers M' = true := by
  obtain ⟨t, ht, hen, hfire⟩ := h
  obtain ⟨hs, hle⟩ := Marking.covers_iff.mp hcovers
  simp only [Marking.size_exact, Marking.get_exact] at hs hle
  obtain ⟨-, hout, hs', hget⟩ := Marking.fire?_eq_some_iff.mp hfire
  rw [← hs] at hout hs'
  have hen : m.enables t = true := m.enables_exact t ▸ Marking.enables_of_covers hcovers hen
  obtain ⟨m', hm'⟩ := Marking.exists_fire? hen hout
  obtain ⟨-, -, hsize, hget'⟩ := Marking.fire?_eq_some_iff.mp hm'
  obtain ⟨path, hgrown⟩ := hS.fire m hm t ht m' hen hm'
  refine ⟨_, hgrown, Marking.covers_of_forall_lt ?_ fun p hp => ?_⟩
  · rw [Marking.size_exact, Pending.size_grown, hsize, hs']
  · rw [Marking.size_exact] at hp
    rw [Marking.get_exact, hget p]
    -- A count that has not grown to ω is not full, so it was counted exactly.
    have hnot := hfull _ hgrown p hp
    rcases Pending.get_grown_cases path m' p with hω | hsame
    · rw [hω]
      exact Tokens.le_iff.mpr (Or.inl rfl)
    · rw [hsame, hget' p] at hnot ⊢
      rw [Tokens.exact_moved hnot]
      exact Tokens.moved_le_moved (hle p) _ _

/-- Closed markings without full counts cover what the net reaches. -/
theorem Closed.exists_covers (hS : Closed n root S)
    (hfull : ∀ m, S m → ∀ p < m.size, ¬ (m.get p).IsFull) {M : Marking .unlimited}
    (hM : n.Reachable root.exact M) : ∃ m, S m ∧ m.exact.covers M = true := by
  induction hM with
  | refl => exact ⟨root, hS.start, Marking.covers_refl _⟩
  | tail _ hfires ih =>
    obtain ⟨m, hm, hcovers⟩ := ih
    exact hS.covers_step hfull hm hcovers hfires

/-- If no marking in the tree has the largest count, then every exact marking that the net reaches
is covered by one in the tree. -/
theorem exists_covers_of_reachable {most : Nat} {n : Net} {initial : Marking (.upTo most)}
    (hfull : ∀ m ∈ (explore n initial).markings, Tokens.full ∉ m.counts) {M : Marking .unlimited}
    (hM : n.Reachable (n.startFrom initial) M) :
    ∃ m ∈ (explore n initial).markings, m.exact.covers M = true :=
  (complete_explore n initial).closed.exists_covers
    (fun m hm => Marking.not_isFull_of_not_mem (hfull m hm)) hM

end Coverability

/-- A net that counts for as long as the clock has a token. -/
def Net.ticker : Net :=
  .make ["ticks", "clock"] [⟨"t", ["clock"], ["clock", "ticks"]⟩]

namespace Coverability

/-- The clock starts with two tokens, and nothing is said of the ticks. -/
theorem exists_covers_ticker :
    (∀ m ∈ (explore Net.ticker (⟨[.finite (.ofNat _ 2)]⟩ : Marking .word)).markings,
        Tokens.full ∉ m.counts) ∧
      Net.ticker.Reachable (Net.ticker.startFrom (⟨[.finite (.ofNat _ 2)]⟩ : Marking .word))
        ⟨[.finite ⟨2, trivial⟩, .finite ⟨3, trivial⟩]⟩ ∧
      ∃ m ∈ (explore Net.ticker (⟨[.finite (.ofNat _ 2)]⟩ : Marking .word)).markings,
        m.exact.covers ⟨[.finite ⟨2, trivial⟩, .finite ⟨3, trivial⟩]⟩ = true := by
  have hmarkings : (explore Net.ticker (⟨[.finite (.ofNat _ 2)]⟩ : Marking .word)).markings =
      [⟨[.finite (.ofNat _ 2), .finite (.ofNat _ 0)]⟩,
        ⟨[.finite (.ofNat _ 2), .finite (.ofNat _ 1)]⟩, ⟨[.finite (.ofNat _ 2), .omega]⟩,
        ⟨[.finite (.ofNat _ 2), .omega]⟩] :=
    markings_explore_of_runWithin 5 (by decide +kernel)
  have hfull : ∀ m ∈ (explore Net.ticker (⟨[.finite (.ofNat _ 2)]⟩ : Marking .word)).markings,
      Tokens.full ∉ m.counts := by
    rw [hmarkings]
    decide +kernel
  have ht : (⟨[0], [0, 1]⟩ : Transition) ∈ Net.ticker.transitionList := by decide +kernel
  have hstep : ∀ k, Net.ticker.Fires
      (⟨[.finite ⟨2, trivial⟩, .finite ⟨k, trivial⟩]⟩ : Marking .unlimited)
      ⟨[.finite ⟨2, trivial⟩, .finite ⟨k + 1, trivial⟩]⟩ :=
    fun k => ⟨_, ht, rfl, rfl⟩
  have hM : Net.ticker.Reachable
      (Net.ticker.startFrom (⟨[.finite (.ofNat _ 2)]⟩ : Marking .word))
      ⟨[.finite ⟨2, trivial⟩, .finite ⟨3, trivial⟩]⟩ := by
    have hstart : Net.ticker.startFrom (⟨[.finite (.ofNat _ 2)]⟩ : Marking .word) =
        ⟨[.finite ⟨2, trivial⟩, .finite ⟨0, trivial⟩]⟩ := by decide +kernel
    rw [hstart]
    exact ((Relation.ReflTransGen.single (hstep 0)).tail (hstep 1)).tail (hstep 2)
  exact ⟨hfull, hM, exists_covers_of_reachable hfull hM⟩

end Coverability

end DrawnModels
