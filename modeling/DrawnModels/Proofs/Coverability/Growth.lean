import DrawnModels.Proofs.Coverability.Branches
import Mathlib.Data.Set.Finite.Lattice
import Mathlib.Order.Filter.AtTopBot.Basic
import Mathlib.Order.Filter.Finite
import Mathlib.Order.Interval.Set.Infinite
import Mathlib.Order.WellQuasiOrder

/-!
# Branches end

A branch that stops where a marking is repeated cannot go on forever, whether counts are limited or
not. Along an infinite branch places only ever get ω, so from some marking on no place gets it any
more. Of infinitely many markings some later one covers an earlier one, and then the earlier one, or
another before it, is the oldest that is covered. Growing against it must not give ω to any place.
So it stands before the point from which on the places with ω are fixed, and it determines all
finite counts of the later marking. This can happen only finitely often without a repetition.
-/

namespace DrawnModels

namespace Coverability

variable {cap : Capacity} {n : Net}

/-- `b` extends the branch `a`, which does not end with a repeated marking, by a transition. -/
def Extends (n : Net) (a b : List (Marking cap) × Marking cap) : Prop :=
  a.2 ∉ a.1 ∧ b.1 = a.2 :: a.1 ∧ ∃ t ∈ n.transitionList, ∃ m', a.2.enables t = true ∧
    a.2.fire? t = some m' ∧ b.2 = Pending.grown a.1 m'

theorem Pending.exists_accelerate_of_mem {path : List (Marking cap)} {m old : Marking cap}
    (hold : old ∈ path) (hcovers : m.strictlyCovers old = true) :
    ∃ old' ∈ path, m.strictlyCovers old' = true ∧ grown path m = m.accelerate old' := by
  cases h : oldestCovered? path m with
  | none =>
    have := List.find?_eq_none.mp h old (List.mem_reverse.mpr hold)
    exact absurd hcovers this
  | some old' =>
    refine ⟨old', List.mem_reverse.mp (List.mem_of_find?_eq_some h), List.find?_some h, ?_⟩
    rw [grown, h]

namespace Extends

/-- From marking number `N` on no place gets ω any more. -/
def Settled (f : Nat → List (Marking cap) × Marking cap) (N : Nat) : Prop :=
  ∀ i, N ≤ i → ∀ p, ((f i).2.get p).isOmega = ((f N).2.get p).isOmega

section Infinite

variable {f : Nat → List (Marking cap) × Marking cap} (hf : ∀ i, Extends n (f i) (f (i + 1)))

include hf

theorem size_eq (i : Nat) : (f i).2.size = (f 0).2.size := by
  induction i with
  | zero => rfl
  | succ i ih =>
    obtain ⟨-, -, t, -, m', -, hfire, hm⟩ := hf i
    rw [hm, Pending.size_grown, Marking.size_of_fire? hfire, ih]

theorem isOmega_mono {i j p : Nat} (hij : i ≤ j) (h : ((f i).2.get p).isOmega = true) :
    ((f j).2.get p).isOmega = true := by
  induction hij with
  | refl => exact h
  | @step j _ ih =>
    obtain ⟨-, -, t, -, m', -, hfire, hm⟩ := hf j
    rw [hm]
    rcases Pending.get_grown_cases (f j).1 m' p with hp | hp <;> rw [hp]
    · rfl
    · rw [Marking.isOmega_get_of_fire? hfire]
      exact ih

theorem mem_path_iff {i j : Nat} (hij : i ≤ j) {m : Marking cap} :
    m ∈ (f j).1 ↔ m ∈ (f i).1 ∨ ∃ l, i ≤ l ∧ l < j ∧ m = (f l).2 := by
  induction hij with
  | refl => exact ⟨Or.inl, fun h => h.resolve_right fun ⟨l, hil, hli, _⟩ => by omega⟩
  | @step j hij ih =>
    rw [(hf j).2.1, List.mem_cons, ih]
    constructor
    · rintro (rfl | h | ⟨l, hil, hlj, rfl⟩)
      · exact Or.inr ⟨j, hij, Nat.lt_succ_self j, rfl⟩
      · exact Or.inl h
      · exact Or.inr ⟨l, hil, Nat.lt_succ_of_lt hlj, rfl⟩
    · rintro (h | ⟨l, hil, hlj, rfl⟩)
      · exact Or.inr (Or.inl h)
      · rcases Nat.lt_succ_iff_lt_or_eq.mp hlj with hlj | rfl
        · exact Or.inr (Or.inr ⟨l, hil, hlj, rfl⟩)
        · exact Or.inl rfl

theorem injective : Function.Injective fun i => (f i).2 := by
  have hne : ∀ {i j}, i < j → (f i).2 ≠ (f j).2 := fun {i j} hij heq =>
    (hf j).1 ((mem_path_iff hf hij.le).mpr (Or.inr ⟨i, Nat.le_refl i, hij, heq.symm⟩))
  intro i j hij
  rcases Nat.lt_trichotomy i j with h | h | h
  · exact absurd hij (hne h)
  · exact h
  · exact absurd hij.symm (hne h)

theorem exists_settled : ∃ N, Settled f N := by
  have hplace : ∀ p ∈ Finset.range (f 0).2.size, ∀ᶠ i in Filter.atTop,
      (((f i).2.get p).isOmega = true ↔ ∃ j, ((f j).2.get p).isOmega = true) := by
    intro p _
    by_cases hp : ∃ j, ((f j).2.get p).isOmega = true
    · obtain ⟨j, hj⟩ := hp
      refine Filter.eventually_atTop.mpr ⟨j, fun i hi => ?_⟩
      exact iff_of_true (isOmega_mono hf hi hj) ⟨j, hj⟩
    · exact Filter.Eventually.of_forall fun i => iff_of_false (fun hi => hp ⟨i, hi⟩) hp
  obtain ⟨N, hN⟩ := Filter.eventually_atTop.mp ((Filter.eventually_all_finset _).mpr hplace)
  refine ⟨N, fun i hi p => ?_⟩
  by_cases hp : p < (f 0).2.size
  · rw [Bool.eq_iff_iff, hN i hi p (Finset.mem_range.mpr hp),
      hN N (Nat.le_refl N) p (Finset.mem_range.mpr hp)]
  · have hzero : ∀ j, (f j).2.get p = .zero := fun j =>
      Marking.get_eq_zero ((size_eq hf j).trans_le (Nat.le_of_not_lt hp))
    rw [hzero, hzero]

/-- Once the branch is settled, a marking that covers one of those after this has the finite counts
of one of those before. -/
theorem exists_mem_path_of_covers {N i j : Nat} (hN : Settled f N) (hj : N ≤ j) (hji : j < i)
    (hcovers : (f (i + 1)).2.covers (f j).2 = true) :
    ∃ old ∈ (f N).1, ∀ p, ((f N).2.get p).isOmega = false → (f (i + 1)).2.get p = old.get p := by
  have hi : N ≤ i := hj.trans hji.le
  obtain ⟨-, -, t, -, m', -, hfire, hm⟩ := hf i
  have hω : ∀ p, (m'.get p).isOmega = ((f N).2.get p).isOmega := fun p =>
    (Marking.isOmega_get_of_fire? hfire p).trans (hN i hi p)
  have hsame : (f (i + 1)).2 = m' := by
    rw [hm]
    apply Pending.grown_eq_self
    intro p
    rw [← hm, hN (i + 1) (Nat.le_succ_of_le hi) p, hω p]
  have hmem : (f j).2 ∈ (f i).1 :=
    (mem_path_iff hf hji.le).mpr (Or.inr ⟨j, Nat.le_refl j, hji, rfl⟩)
  have hne : (f (i + 1)).2 ≠ (f j).2 := by
    intro heq
    have := injective hf heq
    omega
  -- The oldest covered marking gives ω to no place, so it has fewer tokens only where there is ω.
  rw [hsame] at hcovers hne
  obtain ⟨old, hold, hstrict, hacc⟩ := Pending.exists_accelerate_of_mem hmem
    (Marking.strictlyCovers_of_ne hcovers hne)
  rw [← hm, hsame] at hacc
  have hcases := Marking.get_accelerate_cases (Marking.covers_of_strictlyCovers hstrict)
  rw [← hacc] at hcases
  refine ⟨old, ?_, ?_⟩
  · obtain ⟨p, -, hlt⟩ := Marking.exists_lt_of_strictlyCovers hstrict
    apply ((mem_path_iff hf hi).mp hold).resolve_right
    rintro ⟨l, hl, -, rfl⟩
    have hfinite := (Tokens.lt_iff.mp hlt).1
    rw [hN l hl p, ← hω p] at hfinite
    rcases hcases p with ⟨-, hget⟩ | ⟨heq, -⟩
    · rw [hget] at hfinite
      cases hfinite
    · exact Tokens.lt_irrefl _ (heq ▸ hlt)
  · intro p hfinite
    rw [hsame]
    rcases hcases p with ⟨-, hget⟩ | ⟨heq, -⟩
    · rw [← hω p, hget] at hfinite
      cases hfinite
    · exact heq.symm

/-- Again and again a marking of a settled branch covers another after which it is settled, with one
in between. -/
theorem exists_covers {N : Nat} (hN : Settled f N) (a : Nat) :
    ∃ i, a < i ∧ ∃ j, N ≤ j ∧ j < i ∧ (f (i + 1)).2.covers (f j).2 = true := by
  let g : Nat → Fin (f 0).2.size → Nat := fun k p => ((f (N + a + 2 * k)).2.get p).number 0
  obtain ⟨b, c, hbc, hle⟩ := wellQuasiOrdered_le g
  refine ⟨N + a + 2 * c - 1, by omega, N + a + 2 * b, by omega, by omega, ?_⟩
  rw [show N + a + 2 * c - 1 + 1 = N + a + 2 * c by omega]
  apply Marking.covers_of_forall_lt ((size_eq hf _).trans (size_eq hf _).symm)
  intro p hp
  rw [size_eq hf] at hp
  rw [Tokens.le_iff, hN _ (by omega) p, hN (N + a + 2 * b) (by omega) p]
  cases ((f N).2.get p).isOmega with
  | true => exact Or.inl rfl
  | false => exact Or.inr ⟨rfl, hle ⟨p, hp⟩⟩

end Infinite

/-- Branches cannot be extended forever. -/
theorem not_forever (f : Nat → List (Marking cap) × Marking cap) :
    ¬ ∀ i, Extends n (f i) (f (i + 1)) := by
  intro hf
  obtain ⟨N, hN⟩ := exists_settled hf
  let covering := {i | ∃ j, N ≤ j ∧ j < i ∧ (f (i + 1)).2.covers (f j).2 = true}
  have hinf : covering.Infinite := Set.infinite_of_forall_exists_gt fun a => by
    obtain ⟨i, hai, hi⟩ := exists_covers hf hN a
    exact ⟨i, hi, hai⟩
  have hold : ∀ i ∈ covering, ∃ old ∈ (f N).1, ∀ p, ((f N).2.get p).isOmega = false →
      (f (i + 1)).2.get p = old.get p := by
    rintro i ⟨j, hj, hji, hcovers⟩
    exact exists_mem_path_of_covers hf hN hj hji hcovers
  have : Nonempty (Marking cap) := ⟨.empty⟩
  choose! old hold hget using hold
  -- Two of them have the same finite counts, and then they are repetitions of each other.
  have hmaps : Set.MapsTo old covering {m | m ∈ (f N).1} := hold
  obtain ⟨i, hi, j, hj, hij, heq⟩ :=
    hinf.exists_ne_map_eq_of_mapsTo hmaps (List.finite_toSet (f N).1)
  have hle : ∀ k ∈ covering, N ≤ k + 1 := by
    rintro k ⟨l, hl, hlk, -⟩
    omega
  apply hij
  apply Nat.succ.inj
  apply injective hf
  apply Marking.ext_get ((size_eq hf _).trans (size_eq hf _).symm)
  intro p
  cases hω : ((f N).2.get p).isOmega with
  | true =>
    rw [Tokens.eq_omega ((hN _ (hle i hi) p).trans hω),
      Tokens.eq_omega ((hN _ (hle j hj) p).trans hω)]
  | false => rw [hget i hi p hω, hget j hj p hω, heq]

theorem wellFounded (n : Net) : WellFounded fun b a : List (Marking cap) × Marking cap =>
    Extends n a b :=
  wellFounded_iff_isEmpty_descending_chain.mpr ⟨fun f => not_forever f.1 f.2⟩

theorem finite_extensions (n : Net) (a : List (Marking cap) × Marking cap) :
    {b | Relation.ReflTransGen (Extends n) a b}.Finite := by
  induction a using (wellFounded n).induction with
  | _ a ih =>
    have hnext : {b | Extends n a b}.Finite := by
      refine ((List.finite_toSet n.transitionList).image fun t =>
        (a.2 :: a.1, Pending.grown a.1 ((a.2.fire? t).getD a.2))).subset ?_
      rintro ⟨path, m⟩ ⟨-, rfl, t, ht, m', -, hfire, rfl⟩
      exact ⟨t, ht, by simp [hfire]⟩
    apply ((Set.finite_singleton a).union (hnext.biUnion ih)).subset
    intro b hb
    rcases Relation.ReflTransGen.cases_head hb with rfl | ⟨c, hc, hcb⟩
    · exact Or.inl rfl
    · exact Or.inr (Set.mem_biUnion hc hcb)

variable {root : Marking cap} {b : List (Marking cap) × Marking cap}

theorem finite_ends (n : Net) (root : Marking cap) :
    {m | ∃ path, Relation.ReflTransGen (Extends n) ([], root) (path, m)}.Finite := by
  apply ((finite_extensions n ([], root)).image Prod.snd).subset
  rintro m ⟨path, hpath⟩
  exact ⟨_, hpath, rfl⟩

theorem branch (h : Relation.ReflTransGen (Extends n) ([], root) b) : Branch n root b.1 b.2 := by
  induction h with
  | refl => exact Branch.root
  | @tail b c _ hstep ih =>
    obtain ⟨-, hpath, t, ht, m', hen, hfire, hm⟩ := hstep
    rw [hpath, hm]
    exact ih.fire ht hen hfire

/-- Every marking of such a branch is where one ends that does not repeat it. -/
theorem exists_not_mem (h : Relation.ReflTransGen (Extends n) ([], root) b) :
    ∀ m ∈ b.2 :: b.1, ∃ path, Relation.ReflTransGen (Extends n) ([], root) (path, m) ∧
      m ∉ path := by
  induction h with
  | refl =>
    intro m hm
    rw [List.mem_singleton.mp hm]
    exact ⟨[], Relation.ReflTransGen.refl, List.not_mem_nil⟩
  | @tail b c hb hstep ih =>
    intro m hm
    obtain ⟨-, hpath, -⟩ := id hstep
    by_cases hold : m ∈ b.2 :: b.1
    · exact ih m hold
    · obtain rfl : m = c.2 := (List.mem_cons.mp hm).resolve_right (hpath ▸ hold)
      exact ⟨c.1, hb.tail hstep, hpath ▸ hold⟩

theorem closed (n : Net) (root : Marking cap) : Closed n root fun m =>
    ∃ path, Relation.ReflTransGen (Extends n) ([], root) (path, m) where
  start := ⟨[], Relation.ReflTransGen.refl⟩
  fire m hm t ht m' hen hfire := by
    obtain ⟨path, hpath⟩ := hm
    obtain ⟨path, hpath, hnot⟩ := exists_not_mem hpath m List.mem_cons_self
    exact ⟨path, _, hpath.tail ⟨hnot, rfl, t, ht, m', hen, hfire, rfl⟩⟩

end Extends

end Coverability

end DrawnModels
