import DrawnModels.Proofs.Coverability.Branches
import Mathlib.Data.Set.Image

/-!
# Trees without ω

A tree in which no place has ω and no count is the largest one is nothing but a search for the
reachable markings: no marking in it has grown, and all its counts are exact. A marking that is
repeated is not followed any further, but the tree has its successors from where it was met first.
So the tree has visited the markings that the net reaches, and no others.
-/

namespace DrawnModels

variable {cap : Capacity}

/-- Every count of the marking is what exact counting gives. -/
structure Marking.IsPlain (m : Marking cap) : Prop where
  hasOmega : m.hasOmega = false
  not_isFull : ∀ p < m.size, ¬ (m.get p).IsFull

namespace Coverability

variable {n : Net} {root m : Marking cap} {path : List (Marking cap)}

theorem Pending.grown_eq_self_of_isPlain (h : (grown path m).IsPlain) : grown path m = m := by
  apply grown_eq_self
  intro p
  have hp := Marking.hasOmega_eq_false_iff.mp h.hasOmega p
  rcases get_grown_cases path m p with hω | hsame
  · rw [hω] at hp
    cases hp
  · rw [hsame]

/-- A branch of plain markings is a way that the net can take. -/
theorem Branch.reachable_exact (h : Branch n root path m)
    (hplain : ∀ m' ∈ m :: path, m'.IsPlain) : n.Reachable root.exact m.exact := by
  induction h with
  | root => exact Relation.ReflTransGen.refl
  | @fire path m t m' hbranch ht hen hfire ih =>
    obtain ⟨hm', hpath⟩ := List.forall_mem_cons.mp hplain
    have hsame := Pending.grown_eq_self_of_isPlain hm'
    rw [hsame] at hm' ⊢
    have hexact := Marking.fire?_exact hfire hm'.not_isFull
    exact (ih hpath).tail ⟨t, ht, (m.enables_exact t).trans hen, hexact⟩

/-- Closed markings that are plain are all that the net reaches. -/
theorem Closed.exists_exact_eq {S : Marking cap → Prop} (hS : Closed n root S)
    (hplain : ∀ m, S m → m.IsPlain) {M : Marking .unlimited} (hM : n.Reachable root.exact M) :
    ∃ m, S m ∧ m.exact = M := by
  induction hM with
  | refl => exact ⟨root, hS.start, rfl⟩
  | tail _ hfires ih =>
    obtain ⟨m, hm, rfl⟩ := ih
    obtain ⟨t, ht, hen, hfire⟩ := hfires
    rw [Marking.enables_exact] at hen
    obtain ⟨-, hout, -, -⟩ := Marking.fire?_eq_some_iff.mp hfire
    obtain ⟨m', hm'⟩ := Marking.exists_fire? hen (m.size_exact ▸ hout)
    obtain ⟨path, hgrown⟩ := hS.fire m hm t ht m' hen hm'
    rw [Pending.grown_eq_self_of_isPlain (hplain _ hgrown)] at hgrown
    rw [Marking.fire?_exact hm' (hplain m' hgrown).not_isFull] at hfire
    exact ⟨m', hgrown, Option.some.inj hfire⟩

theorem Tree.Complete.mem_markings_iff {t : Tree cap} (h : t.Complete n root)
    (hplain : ∀ m ∈ t.markings, m.IsPlain) :
    m ∈ t.markings ↔ n.Reachable root.exact m.exact := by
  constructor
  · intro hm
    obtain ⟨path, hbranch, hpath⟩ := h.nodes m hm
    exact hbranch.reachable_exact
      (List.forall_mem_cons.mpr ⟨hplain m hm, fun m' hm' => hplain m' (hpath m' hm')⟩)
  · intro hreach
    obtain ⟨m', hm', hexact⟩ := h.closed.exists_exact_eq hplain hreach
    exact Marking.exact_injective hexact ▸ hm'

/-- If no marking in the tree has ω or the largest count, then the distinct markings of the tree are
those that the net reaches with exact counts, and they are the ones that the tree contains. -/
theorem setOf_reachable_eq_image_distinctMarkings {most : Nat} {n : Net}
    {initial : Marking (.upTo most)}
    (hω : ∀ m ∈ (explore n initial).markings, m.hasOmega = false)
    (hfull : ∀ m ∈ (explore n initial).markings, Tokens.full ∉ m.counts) :
    {M | n.Reachable (n.startFrom initial) M} =
        Marking.exact '' {m | m ∈ (explore n initial).distinctMarkings} ∧
      ∀ m, (explore n initial).contains m = true ↔ n.Reachable (n.startFrom initial) m.exact := by
  have hcomplete := complete_explore n initial
  have hplain : ∀ m ∈ (explore n initial).markings, m.IsPlain := fun m hm =>
    ⟨hω m hm, Marking.not_isFull_of_not_mem (hfull m hm)⟩
  have hmem : ∀ m, m ∈ (explore n initial).markings ↔
      n.Reachable (n.startFrom initial) m.exact := fun m => hcomplete.mem_markings_iff hplain
  constructor
  · ext M
    simp only [Set.mem_ofPred_eq, Set.mem_image, Tree.distinctMarkings, SortedSet.mem_ofList]
    constructor
    · exact fun hM => hcomplete.closed.exists_exact_eq hplain hM
    · rintro ⟨m, hm, rfl⟩
      exact (hmem m).mp hm
  · exact fun m => contains_explore_iff.trans (hmem m)

end Coverability

/-- A net in which a token moves back and forth between two places. -/
def Net.shuttle : Net :=
  .make ["p", "q"] [⟨"t", ["p"], ["q"]⟩, ⟨"u", ["q"], ["p"]⟩]

namespace Coverability

def shuttleStart : Marking .word :=
  ⟨[.finite (.ofNat _ 1)]⟩

theorem markings_shuttle : (explore Net.shuttle shuttleStart).markings =
    [⟨[.finite (.ofNat _ 1), .finite (.ofNat _ 0)]⟩,
      ⟨[.finite (.ofNat _ 0), .finite (.ofNat _ 1)]⟩,
      ⟨[.finite (.ofNat _ 1), .finite (.ofNat _ 0)]⟩] :=
  markings_explore_of_runWithin 4 (by decide +kernel)

/-- The token is on one of the two places at any time. -/
theorem setOf_reachable_shuttle :
    (∀ m ∈ (explore Net.shuttle shuttleStart).markings, m.hasOmega = false) ∧
      (∀ m ∈ (explore Net.shuttle shuttleStart).markings, Tokens.full ∉ m.counts) ∧
      {M | Net.shuttle.Reachable (Net.shuttle.startFrom shuttleStart) M} =
        {⟨[.finite ⟨1, trivial⟩, .finite ⟨0, trivial⟩]⟩,
          ⟨[.finite ⟨0, trivial⟩, .finite ⟨1, trivial⟩]⟩} := by
  have hω : ∀ m ∈ (explore Net.shuttle shuttleStart).markings, m.hasOmega = false := by
    rw [markings_shuttle]
    decide +kernel
  have hfull : ∀ m ∈ (explore Net.shuttle shuttleStart).markings, Tokens.full ∉ m.counts := by
    rw [markings_shuttle]
    decide +kernel
  refine ⟨hω, hfull, ?_⟩
  rw [(setOf_reachable_eq_image_distinctMarkings hω hfull).1]
  have hset : {m | m ∈ (explore Net.shuttle shuttleStart).distinctMarkings} =
      {⟨[.finite (.ofNat _ 1), .finite (.ofNat _ 0)]⟩,
        ⟨[.finite (.ofNat _ 0), .finite (.ofNat _ 1)]⟩} := by
    ext m
    simp only [Tree.distinctMarkings, markings_shuttle, Set.mem_ofPred_eq, SortedSet.mem_ofList,
      List.mem_cons, List.not_mem_nil, Set.mem_insert_iff, Set.mem_singleton_iff]
    tauto
  rw [hset, Set.image_pair]
  rfl

end Coverability

end DrawnModels
