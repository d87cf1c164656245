import DrawnModels.Proofs.Coverability.Boundedness

/-!
# The order of transitions

A net that has its transitions in another order builds another tree: its markings are found in
another order, other ones are repeated, and they grow against other markings. But the net reaches
the same exact markings. These approach the markings of the one tree and are covered by those of the
other, so each tree covers the other, and both say the same about boundedness.
-/

namespace DrawnModels

/-- The same places, and the same transitions in whatever order. -/
structure Net.IsReorderingOf (n n' : Net) : Prop where
  places : n.places = n'.places
  transitions : n.transitions.entries.Perm n'.transitions.entries

namespace Net.IsReorderingOf

variable {cap : Capacity} {n n' : Net}

theorem symm (h : n.IsReorderingOf n') : n'.IsReorderingOf n :=
  ⟨h.places.symm, h.transitions.symm⟩

theorem mem_transitionList_iff (h : n.IsReorderingOf n') {t : Transition} :
    t ∈ n.transitionList ↔ t ∈ n'.transitionList :=
  (h.transitions.map Prod.snd).mem_iff

theorem placeCount_eq (h : n.IsReorderingOf n') : n.placeCount = n'.placeCount :=
  congrArg SortedSet.size h.places

theorem startFrom_eq (h : n.IsReorderingOf n') (initial : Marking cap) :
    n.startFrom initial = n'.startFrom initial := by
  rw [startFrom, startFrom, h.placeCount_eq]

theorem reachable (h : n.IsReorderingOf n') {m m' : Marking cap} (hreach : n.Reachable m m') :
    n'.Reachable m m' := by
  refine Relation.ReflTransGen.mono ?_ m m' hreach
  rintro k k' ⟨t, ht, hfires⟩
  exact ⟨t, h.mem_transitionList_iff.mp ht, hfires⟩

end Net.IsReorderingOf

theorem Tokens.isOmega_of_atLeast_succ {most : Nat} {k : Tokens (.upTo most)}
    (h : k.atLeast (most + 1) = true) : k.isOmega = true := by
  cases k with
  | finite c =>
    have hc : c.val ≤ most := c.allowed
    have hlt : most + 1 ≤ c.val := of_decide_eq_true h
    omega
  | omega => rfl

namespace Coverability

variable {most : Nat} {n n' : Net} {initial : Marking (.upTo most)}

/-- What covers exact markings that come close enough to a marking covers the marking. -/
theorem exists_covers_of_mem_explore (h : n.IsReorderingOf n') (hω : initial.hasOmega = false)
    (hfull : ∀ m ∈ (explore n' initial).markings, Tokens.full ∉ m.counts)
    {m : Marking (.upTo most)} (hm : m ∈ (explore n initial).markings) :
    ∃ m' ∈ (explore n' initial).markings, m'.covers m = true := by
  -- More tokens in the place of ω than any finite count has.
  obtain ⟨M, hM, -, happroaches, -⟩ := exists_reachable_of_mem_explore hω hm (most + 1)
  have hM' := h.startFrom_eq initial ▸ h.reachable hM
  obtain ⟨m', hm', hcovers⟩ := exists_covers_of_reachable hfull hM'
  have hs := size_of_mem_explore hm
  refine ⟨m', hm', Marking.covers_of_forall_lt ?_ fun p hp => ?_⟩
  · rw [size_of_mem_explore hm', hs, h.placeCount_eq]
  · rw [size_of_mem_explore hm', ← h.placeCount_eq] at hp
    obtain ⟨hfinite, hmany⟩ := happroaches p hp
    have hle := (Marking.covers_iff.mp hcovers).2 p
    rw [Marking.get_exact] at hle
    cases hp : (m.get p).isOmega with
    | false => exact Tokens.exact_le_exact_iff.mp (Tokens.le_trans (hfinite hp) hle)
    | true =>
      have hat := Tokens.atLeast_of_le hle (hmany hp)
      rw [Tokens.atLeast_exact] at hat
      exact Tokens.le_iff.mpr (Or.inl (Tokens.isOmega_of_atLeast_succ hat))

theorem isUnboundedAt_of_isReorderingOf (h : n.IsReorderingOf n') (hω : initial.hasOmega = false)
    (hfull : ∀ m ∈ (explore n' initial).markings, Tokens.full ∉ m.counts) {p : Nat}
    (hp : (explore n initial).isUnboundedAt p = true) :
    (explore n' initial).isUnboundedAt p = true := by
  obtain ⟨m, hm, hmp⟩ := Tree.isUnboundedAt_eq_true_iff.mp hp
  obtain ⟨m', hm', hcovers⟩ := exists_covers_of_mem_explore h hω hfull hm
  have hle := (Marking.covers_iff.mp hcovers).2 p
  rw [Tokens.le_iff, hmp] at hle
  exact Tree.isUnboundedAt_eq_true_iff.mpr ⟨m', hm', hle.resolve_right (by simp)⟩

/-- If two nets differ in the order of their transitions and no marking in their trees has the
largest count, then each tree covers the other, and both give the same answers about boundedness. -/
theorem explore_covers_explore (h : n.IsReorderingOf n') (hω : initial.hasOmega = false)
    (hfull : ∀ m ∈ (explore n initial).markings, Tokens.full ∉ m.counts)
    (hfull' : ∀ m ∈ (explore n' initial).markings, Tokens.full ∉ m.counts) :
    (∀ m ∈ (explore n initial).markings,
        ∃ m' ∈ (explore n' initial).markings, m'.covers m = true) ∧
      (∀ m' ∈ (explore n' initial).markings,
        ∃ m ∈ (explore n initial).markings, m.covers m' = true) ∧
      (explore n initial).isBounded = (explore n' initial).isBounded ∧
      (explore n initial).unboundedPlaces = (explore n' initial).unboundedPlaces := by
  have hsame : (explore n initial).isUnboundedAt = (explore n' initial).isUnboundedAt := by
    funext p
    rw [Bool.eq_iff_iff]
    exact ⟨isUnboundedAt_of_isReorderingOf h hω hfull',
      isUnboundedAt_of_isReorderingOf h.symm hω hfull⟩
  have hplaces : (explore n initial).places = (explore n' initial).places := by
    rw [(names_explore _ _).1, (names_explore _ _).1, Net.placeNames, Net.placeNames, h.places]
  refine ⟨fun m => exists_covers_of_mem_explore h hω hfull',
    fun m => exists_covers_of_mem_explore h.symm hω hfull, ?_, ?_⟩
  · rw [Bool.eq_iff_iff, Tree.isBounded_iff fun m => size_of_mem_explore,
      Tree.isBounded_iff fun m => size_of_mem_explore, hsame, h.placeCount_eq]
  · rw [Tree.unboundedPlaces, Tree.unboundedPlaces, hsame, hplaces]

end Coverability

/-- `move` takes a token from `y` to `x`, `double` makes two tokens of one on `x`, and `make` puts a
token on `y`. -/
def pumpTransitions : List NamedTransition :=
  [⟨"move", ["y"], ["x"]⟩, ⟨"double", ["x"], ["x", "x"]⟩, ⟨"make", [], ["y"]⟩]

def Net.pumps : Net :=
  .make ["x", "y"] pumpTransitions

def Net.pumpsReversed : Net :=
  .make ["x", "y"] pumpTransitions.reverse

namespace Coverability

def pumpStart : Marking .word :=
  ⟨[.finite (.ofNat _ 0), .finite (.ofNat _ 1)]⟩

/-- From the same marking the two trees begin differently, but each covers the other. -/
theorem explore_pumps_covers :
    Net.pumps.IsReorderingOf Net.pumpsReversed ∧ pumpStart.hasOmega = false ∧
      (∀ m ∈ (explore Net.pumps pumpStart).markings, Tokens.full ∉ m.counts) ∧
      (∀ m ∈ (explore Net.pumpsReversed pumpStart).markings, Tokens.full ∉ m.counts) ∧
      (explore Net.pumps pumpStart).markings ≠ (explore Net.pumpsReversed pumpStart).markings ∧
      (∀ m ∈ (explore Net.pumps pumpStart).markings,
        ∃ m' ∈ (explore Net.pumpsReversed pumpStart).markings, m'.covers m = true) ∧
      (explore Net.pumps pumpStart).unboundedPlaces =
        (explore Net.pumpsReversed pumpStart).unboundedPlaces := by
  have hreorder : Net.pumps.IsReorderingOf Net.pumpsReversed :=
    ⟨by decide +kernel, by decide +kernel⟩
  have hfull : ∀ m ∈ (explore Net.pumps pumpStart).markings, Tokens.full ∉ m.counts :=
    of_decide_eq_true (apply_explore_of_runWithin
      (fun t => decide (∀ m ∈ t.markings, Tokens.full ∉ m.counts)) 20 (by decide +kernel))
  have hfull' : ∀ m ∈ (explore Net.pumpsReversed pumpStart).markings, Tokens.full ∉ m.counts :=
    of_decide_eq_true (apply_explore_of_runWithin
      (fun t => decide (∀ m ∈ t.markings, Tokens.full ∉ m.counts)) 20 (by decide +kernel))
  have hsecond : (explore Net.pumps pumpStart).markings[1]? =
      some ⟨[.finite (.ofNat _ 0), .finite (.ofNat _ 2)]⟩ :=
    apply_explore_of_runWithin (fun t => t.markings[1]?) 20 (by decide +kernel)
  have hsecond' : (explore Net.pumpsReversed pumpStart).markings[1]? =
      some ⟨[.finite (.ofNat _ 1), .finite (.ofNat _ 0)]⟩ :=
    apply_explore_of_runWithin (fun t => t.markings[1]?) 20 (by decide +kernel)
  obtain ⟨hcovers, -, -, hplaces⟩ := explore_covers_explore hreorder rfl hfull hfull'
  refine ⟨hreorder, rfl, hfull, hfull', fun hsame => ?_, hcovers, hplaces⟩
  rw [hsame, hsecond'] at hsecond
  revert hsecond
  decide +kernel

end Coverability

end DrawnModels
