import DrawnModels.Proofs.Collection.Classes
import DrawnModels.Proofs.Coverability.Completeness
import DrawnModels.Proofs.Coverability.Growth
import DrawnModels.Proofs.Coverability.Pumping
import Mathlib.Data.Fintype.Pi
import Mathlib.Data.Set.Finite.Lattice
import Mathlib.Order.Interval.Finset.Nat

/-!
# Boundedness

A place is unbounded if the net reaches exact markings with any number of tokens on it, and a net is
bounded if it reaches finitely many exact markings. ω never stands on a bounded place. With
unlimited counts every unbounded place gets ω at the end of some branch, but a tree with limited
counts may miss this when a count cannot grow any more. Then the marking that it should have
accelerated looks like a repetition.
-/

namespace DrawnModels

namespace Net

variable {n : Net} {start : Marking .unlimited}

/-- The net reaches markings with any number of tokens on the place. -/
def IsUnboundedAt (n : Net) (start : Marking .unlimited) (p : Nat) : Prop :=
  ∀ k, ∃ M, n.Reachable start M ∧ (M.get p).atLeast k = true

theorem Reachable.hasOmega_eq_false {M : Marking .unlimited} (h : n.Reachable start M)
    (hω : start.hasOmega = false) : M.hasOmega = false := by
  induction h with
  | refl => exact hω
  | tail _ hfires ih =>
    obtain ⟨t, -, -, hfire⟩ := hfires
    rw [Marking.hasOmega_eq_false_iff] at ih ⊢
    intro p
    rw [Marking.isOmega_get_of_fire? hfire]
    exact ih p

theorem exists_number_le {p : Nat} (h : ¬ n.IsUnboundedAt start p) :
    ∃ k, ∀ M, n.Reachable start M → (M.get p).number 0 ≤ k := by
  simp only [IsUnboundedAt, not_forall, not_exists, not_and, Bool.not_eq_true] at h
  obtain ⟨k, hk⟩ := h
  refine ⟨k, fun M hM => Nat.le_of_not_lt fun hlt => ?_⟩
  have hat := Tokens.atLeast_iff.mpr (Or.inr hlt.le)
  rw [hk M hM] at hat
  cases hat

/-- A net reaches finitely many markings if no place is unbounded. -/
theorem finite_reachable_iff (hω : start.hasOmega = false) :
    {M | n.Reachable start M}.Finite ↔ ∀ p < start.size, ¬ n.IsUnboundedAt start p := by
  have hfinite : ∀ M, n.Reachable start M → ∀ p, (M.get p).isOmega = false := fun M hM =>
    Marking.hasOmega_eq_false_iff.mp (hM.hasOmega_eq_false hω)
  constructor
  · intro hfin p _ hunbounded
    obtain ⟨k, hk⟩ := (hfin.image fun M => (M.get p).number 0).bddAbove
    obtain ⟨M, hM, hat⟩ := hunbounded (k + 1)
    have hle : (M.get p).number 0 ≤ k := hk (Set.mem_image_of_mem _ hM)
    rcases Tokens.atLeast_iff.mp hat with hωM | hlt
    · rw [hfinite M hM p] at hωM
      cases hωM
    · omega
  · intro h
    choose k hk using fun p : Fin start.size => exists_number_le (h p p.isLt)
    refine Set.Finite.of_finite_image
      (f := fun M (p : Fin start.size) => (M.get p).number 0) ?_ ?_
    · apply (Set.Finite.pi fun p => Set.finite_Iic (k p)).subset
      rintro _ ⟨M, hM, rfl⟩ p _
      exact hk p M hM
    · intro M hM M' hM' heq
      apply Marking.ext_get (hM.size_eq.trans hM'.size_eq.symm)
      intro p
      by_cases hp : p < start.size
      · exact Tokens.eq_of_number (hfinite M hM p) (hfinite M' hM' p) (congrFun heq ⟨p, hp⟩)
      · have hp := Nat.le_of_not_lt hp
        rw [Marking.get_eq_zero (hM.size_eq.trans_le hp),
          Marking.get_eq_zero (hM'.size_eq.trans_le hp)]

end Net

@[simp] theorem Marking.exact_eq_self (m : Marking .unlimited) : m.exact = m := by
  apply ext_get m.size_exact
  intro p
  rw [get_exact]
  cases m.get p <;> rfl

namespace Coverability

variable {cap : Capacity} {n : Net}

/-- ω stands only on unbounded places. -/
theorem Branch.isUnboundedAt {root m : Marking cap} {path : List (Marking cap)}
    (h : Branch n root path m) (hroot : root.hasOmega = false) {p : Nat}
    (hp : (m.get p).isOmega = true) : n.IsUnboundedAt root.exact p := by
  intro k
  have hlt : p < m.size := Nat.lt_of_not_le fun hle => by
    rw [Marking.get_eq_zero hle] at hp
    cases hp
  obtain ⟨v, hreach, hv⟩ := h.approached hroot (fun h : False => h.elim) k
  refine ⟨_, hreach, ?_⟩
  rw [Marking.get_ofNumbers v hlt]
  have hnum := (hv p hlt).le
  rw [Tokens.number_of_isOmega hp] at hnum
  exact decide_eq_true hnum

/-- Finitely many closed markings without full counts have ω on every unbounded place. -/
theorem Closed.exists_isOmega {root : Marking cap} {S : Marking cap → Prop} (hS : Closed n root S)
    (hfin : {m | S m}.Finite) (hfull : ∀ m, S m → ∀ p < m.size, ¬ (m.get p).IsFull) {p : Nat}
    (h : n.IsUnboundedAt root.exact p) : ∃ m, S m ∧ (m.get p).isOmega = true := by
  obtain ⟨k, hk⟩ := (hfin.image fun m => (m.get p).number 0).bddAbove
  obtain ⟨M, hM, hat⟩ := h (k + 1)
  obtain ⟨m, hm, hcovers⟩ := hS.exists_covers hfull hM
  have hle := (Marking.covers_iff.mp hcovers).2 p
  rw [Marking.get_exact] at hle
  have hat' := Tokens.atLeast_of_le hle hat
  rw [Tokens.atLeast_exact] at hat'
  refine ⟨m, hm, (Tokens.atLeast_iff.mp hat').resolve_right ?_⟩
  have : (m.get p).number 0 ≤ k := hk (Set.mem_image_of_mem _ hm)
  omega

/-- With unlimited counts some branch ends with ω on every unbounded place. -/
theorem isUnboundedAt_iff {start : Marking .unlimited} (hω : start.hasOmega = false) {p : Nat} :
    n.IsUnboundedAt start p ↔ ∃ path m, Branch n start path m ∧ (m.get p).isOmega = true := by
  constructor
  · intro h
    rw [← start.exact_eq_self] at h
    obtain ⟨m, ⟨path, hpath⟩, hm⟩ := (Extends.closed n start).exists_isOmega
      (Extends.finite_ends n start) (fun m _ p _ => (m.get p).not_isFull_unlimited) h
    exact ⟨path, m, Extends.branch hpath, hm⟩
  · rintro ⟨path, m, hbranch, hm⟩
    have := hbranch.isUnboundedAt hω hm
    rwa [Marking.exact_eq_self] at this

namespace Tree

/-- The tree tells whether the net is bounded, and which places are unbounded. -/
structure JudgesBoundedness (t : Tree cap) (n : Net) (start : Marking .unlimited) : Prop where
  isBounded_iff : t.isBounded = true ↔ {M | n.Reachable start M}.Finite
  mem_unboundedPlaces_iff : ∀ name, name ∈ t.unboundedPlaces ↔
    ∃ p, n.placeName? p = some name ∧ n.IsUnboundedAt start p

theorem isUnboundedAt_eq_true_iff {t : Tree cap} {p : Nat} :
    t.isUnboundedAt p = true ↔ ∃ m ∈ t.markings, (m.get p).isOmega = true := by
  rw [isUnboundedAt, List.any_eq_true]

theorem mem_unboundedPlaces {t : Tree cap} {name : String} :
    name ∈ t.unboundedPlaces ↔ ∃ p, t.places[p]? = some name ∧ t.isUnboundedAt p = true := by
  simp only [unboundedPlaces, List.mem_filterMap, List.mem_filter, List.mem_range]
  constructor
  · rintro ⟨p, ⟨-, hp⟩, hname⟩
    exact ⟨p, hname, hp⟩
  · rintro ⟨p, hname, hp⟩
    obtain ⟨hlt, -⟩ := List.getElem?_eq_some_iff.mp hname
    exact ⟨p, ⟨hlt, hp⟩, hname⟩

theorem isBounded_iff {t : Tree cap} {places : Nat} (hs : ∀ m ∈ t.markings, m.size = places) :
    t.isBounded = true ↔ ∀ p < places, ¬ t.isUnboundedAt p = true := by
  simp only [isUnboundedAt_eq_true_iff, isBounded, Bool.not_eq_true', List.any_eq_false,
    Bool.not_eq_true, Marking.hasOmega_eq_false_iff]
  constructor
  · rintro h p - ⟨m, hm, hp⟩
    rw [h m hm p] at hp
    cases hp
  · intro h m hm p
    by_cases hp : p < places
    · exact Bool.not_eq_true _ ▸ fun hω => h p hp ⟨m, hm, hω⟩
    · rw [Marking.get_eq_zero (hs m hm ▸ Nat.le_of_not_lt hp)]
      rfl

theorem judgesBoundedness_iff {t : Tree cap} {start : Marking .unlimited}
    (hplaces : t.places = n.placeNames) (hs : ∀ m ∈ t.markings, m.size = n.placeCount)
    (hstart : start.size = n.placeCount) (hω : start.hasOmega = false) :
    t.JudgesBoundedness n start ↔
      ∀ p < n.placeCount, (t.isUnboundedAt p = true ↔ n.IsUnboundedAt start p) := by
  constructor
  · intro h p hp
    have hname : n.placeName? p = some n.placeNames[p] := List.getElem?_eq_getElem hp
    have huniq : ∀ q, n.placeName? q = n.placeName? p → q = p := fun q hq =>
      ((List.getElem?_inj hp n.places.nodup_toList).mp hq.symm).symm
    have hmem := h.mem_unboundedPlaces_iff n.placeNames[p]
    rw [mem_unboundedPlaces, hplaces, ← hname] at hmem
    constructor
    · intro hp
      obtain ⟨q, hq, hunbounded⟩ := hmem.mp ⟨p, rfl, hp⟩
      exact huniq q hq ▸ hunbounded
    · intro hp
      obtain ⟨q, hq, hunbounded⟩ := hmem.mpr ⟨p, rfl, hp⟩
      exact huniq q hq ▸ hunbounded
  · intro h
    constructor
    · rw [isBounded_iff hs, Net.finite_reachable_iff hω, hstart]
      exact forall₂_congr fun p hp => not_congr (h p hp)
    · intro name
      rw [mem_unboundedPlaces, hplaces]
      apply exists_congr
      intro p
      apply and_congr_right
      intro hname
      exact h p (List.getElem?_eq_some_iff.mp hname).1

end Tree

section Explored

variable {most : Nat} {initial : Marking (.upTo most)}

theorem isUnboundedAt_of_explore (h : initial.hasOmega = false) {p : Nat}
    (hp : (explore n initial).isUnboundedAt p = true) :
    n.IsUnboundedAt (n.startFrom initial) p := by
  obtain ⟨m, hm, hω⟩ := Tree.isUnboundedAt_eq_true_iff.mp hp
  obtain ⟨path, hbranch, -⟩ := (complete_explore n initial).nodes m hm
  exact hbranch.isUnboundedAt (Marking.hasOmega_resized h _) hω

theorem judgesBoundedness_explore_iff (h : initial.hasOmega = false) :
    (explore n initial).JudgesBoundedness n (n.startFrom initial) ↔
      ∀ p < n.placeCount, n.IsUnboundedAt (n.startFrom initial) p →
        (explore n initial).isUnboundedAt p = true := by
  have hω := n.hasOmega_startFrom h
  rw [Tree.judgesBoundedness_iff (names_explore n initial).1 (fun m => size_of_mem_explore)
    (by simp) hω]
  exact forall₂_congr fun p hp => ⟨Iff.mpr, fun hmiss => ⟨isUnboundedAt_of_explore h, hmiss⟩⟩

/-- Whatever the tree says to be unbounded is so. It misses nothing if and only if it has ω on every
place that gets ω at the end of some branch with unlimited counts. In particular it misses nothing
if none of its markings has the largest count. -/
theorem boundedness_of_explore (h : initial.hasOmega = false) :
    (∀ p, (explore n initial).isUnboundedAt p = true → n.IsUnboundedAt (n.startFrom initial) p) ∧
    ((explore n initial).JudgesBoundedness n (n.startFrom initial) ↔
      ∀ p < n.placeCount, ∀ path m, Branch n (n.startFrom initial) path m →
        (m.get p).isOmega = true → (explore n initial).isUnboundedAt p = true) ∧
    ((∀ m ∈ (explore n initial).markings, Tokens.full ∉ m.counts) →
      (explore n initial).JudgesBoundedness n (n.startFrom initial)) := by
  refine ⟨fun p => isUnboundedAt_of_explore h, ?_, fun hfull => ?_⟩ <;>
    rw [judgesBoundedness_explore_iff h]
  · -- Being unbounded and getting ω on a branch with unlimited counts are the same.
    apply forall₂_congr
    intro p hp
    rw [isUnboundedAt_iff (n.hasOmega_startFrom h)]
    exact ⟨fun hmiss path m hbranch hm => hmiss ⟨path, m, hbranch, hm⟩,
      fun hmiss ⟨path, m, hbranch, hm⟩ => hmiss path m hbranch hm⟩
  · intro p hp hunbounded
    rw [Tree.isUnboundedAt_eq_true_iff]
    exact (complete_explore n initial).closed.exists_isOmega (List.finite_toSet _)
      (fun m hm => Marking.not_isFull_of_not_mem (hfull m hm)) hunbounded

theorem boundedness_of_producer :
    Marking.hasOmega (.zero 1 : Marking .word) = false ∧
      (∀ m ∈ (explore Net.producer (.zero 1 : Marking .word)).markings, Tokens.full ∉ m.counts) ∧
      (explore Net.producer (.zero 1 : Marking .word)).JudgesBoundedness Net.producer
        (Net.producer.startFrom (.zero 1 : Marking .word)) :=
  ⟨rfl, not_full_producer, (boundedness_of_explore rfl).2.2 not_full_producer⟩

/-- From the largest count the first marking is repeated at once, although exact counts grow. -/
theorem not_judgesBoundedness_full :
    Marking.hasOmega (⟨[.full]⟩ : Marking .word) = false ∧
      (explore Net.producer (⟨[.full]⟩ : Marking .word)).isBounded = true ∧
      (explore Net.producer (⟨[.full]⟩ : Marking .word)).unboundedPlaces = [] ∧
      Net.producer.placeName? 0 = some "p" ∧
      Net.producer.IsUnboundedAt (Net.producer.startFrom (⟨[.full]⟩ : Marking .word)) 0 ∧
      ¬ {M | Net.producer.Reachable
        (Net.producer.startFrom (⟨[.full]⟩ : Marking .word)) M}.Finite := by
  have hstart : Net.producer.startFrom (⟨[.full]⟩ : Marking .word) =
      ⟨[.finite ⟨18446744073709551615, trivial⟩]⟩ := by decide +kernel
  have ht : (⟨[], [0]⟩ : Transition) ∈ Net.producer.transitionList := by decide +kernel
  have hmarkings : (explore Net.producer (⟨[.full]⟩ : Marking .word)).markings =
      [⟨[.full]⟩, ⟨[.full]⟩] :=
    markings_explore_of_runWithin 3 (by decide +kernel)
  have hfirst : (⟨[.finite ⟨18446744073709551615, trivial⟩]⟩ : Marking .unlimited).fire?
      ⟨[], [0]⟩ = some ⟨[.finite ⟨18446744073709551616, trivial⟩]⟩ := by decide +kernel
  have hsecond : (⟨[.finite ⟨18446744073709551616, trivial⟩]⟩ : Marking .unlimited).fire?
      ⟨[], [0]⟩ = some ⟨[.finite ⟨18446744073709551617, trivial⟩]⟩ := by decide +kernel
  have hunbounded : Net.producer.IsUnboundedAt ⟨[.finite ⟨18446744073709551615, trivial⟩]⟩ 0 :=
    (isUnboundedAt_iff rfl).mpr ⟨_, _, (Branch.root.fire ht rfl hfirst).fire ht rfl hsecond,
      by decide +kernel⟩
  rw [hstart]
  refine ⟨rfl, ?_, ?_, by decide +kernel, hunbounded, fun hfin => ?_⟩
  · rw [Tree.isBounded, hmarkings]
    rfl
  · apply List.eq_nil_iff_forall_not_mem.mpr
    intro name hname
    obtain ⟨p, -, hp⟩ := Tree.mem_unboundedPlaces.mp hname
    obtain ⟨m, hm, hω⟩ := Tree.isUnboundedAt_eq_true_iff.mp hp
    obtain rfl : m = ⟨[.full]⟩ := by simpa [hmarkings] using hm
    rw [Marking.hasOmega_eq_false_iff.mp rfl p] at hω
    cases hω
  · exact (Net.finite_reachable_iff rfl).mp hfin 0 Nat.one_pos hunbounded

end Explored

end Coverability

end DrawnModels
