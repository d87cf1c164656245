import DrawnModels.Collection.SortedSet
import DrawnModels.Proofs.Collection.Occurrences
import Mathlib.Data.List.Count

/-!
# Positions in sorted sets

Halving an increasing list finds what stands in it, at the position where it stands, and nothing
else. So the members of a set are numbered from the least, and elements of a list can be counted by
their numbers.
-/

namespace DrawnModels

namespace SortedSet

universe u

variable {α : Type u} [Ord α] [Std.LawfulEqOrd α] [Std.TransOrd α]

theorem compare_eq_lt_iff {l : List α} (h : l.Pairwise (compare · · = .lt)) {a b : α} {i j : Nat}
    (hi : l[i]? = some a) (hj : l[j]? = some b) : compare a b = .lt ↔ i < j := by
  obtain ⟨hi', rfl⟩ := List.getElem?_eq_some_iff.mp hi
  obtain ⟨hj', rfl⟩ := List.getElem?_eq_some_iff.mp hj
  have hlt := List.pairwise_iff_getElem.mp h
  refine ⟨fun hab => ?_, hlt i j hi' hj'⟩
  rcases Nat.lt_trichotomy i j with hij | rfl | hij
  · exact hij
  · rw [Std.ReflOrd.compare_self] at hab
    cases hab
  · exact absurd hab (Std.OrientedCmp.not_lt_of_lt (hlt j i hj' hi' hij))

theorem bisect_eq_some_iff {l : List α} (h : l.Pairwise (compare · · = .lt)) {a : α} {i : Nat} :
    bisect a l = some i ↔ l[i]? = some a := by
  fun_induction bisect a l generalizing i with
  | case1 => simp
  | case2 b rest middle hlt heq =>
    have hm : (b :: rest)[middle]? = some a := by
      rw [List.getElem?_eq_getElem hlt, Std.compare_eq_iff_eq.mp heq]
    rw [Option.some.injEq]
    refine ⟨fun hi => hi ▸ hm, fun hi => ?_⟩
    have hself : compare a a ≠ .lt := by simp [Std.ReflOrd.compare_self]
    have hmi := mt (compare_eq_lt_iff h hm hi).mpr hself
    have him := mt (compare_eq_lt_iff h hi hm).mpr hself
    omega
  | case3 b rest middle hlt hless ih =>
    have hm := List.getElem?_eq_getElem hlt
    rw [ih (h.sublist (List.take_sublist _ _)), List.getElem?_take, Option.ite_none_right_eq_some]
    exact and_iff_right_of_imp fun hi => (compare_eq_lt_iff h hi hm).mp hless
  | case4 b rest middle hlt hgreater ih =>
    have hm := List.getElem?_eq_getElem hlt
    simp only [Option.map_eq_some_iff, ih (h.sublist (List.drop_sublist _ _)), List.getElem?_drop]
    constructor
    · rintro ⟨j, hj, rfl⟩
      rwa [Nat.add_comm]
    · intro hi
      have hmi := (compare_eq_lt_iff h hm hi).mp (Std.OrientedCmp.lt_of_gt hgreater)
      exact ⟨i - (middle + 1), by rwa [Nat.add_sub_cancel' hmi], Nat.sub_add_cancel hmi⟩

variable {s : SortedSet α} {a : α} {i : Nat}

theorem index?_eq_some_iff : s.index? a = some i ↔ s.toList[i]? = some a :=
  bisect_eq_some_iff s.sorted

theorem exists_index?_iff : (∃ i, s.index? a = some i) ↔ a ∈ s := by
  simp only [index?_eq_some_iff, mem_def, List.mem_iff_getElem?]

theorem index?_eq_none_iff : s.index? a = none ↔ a ∉ s := by
  rw [← exists_index?_iff, not_exists, Option.eq_none_iff_forall_ne_some]

/-- Halving finds what a search from the front finds. -/
theorem index?_eq_idxOf? [DecidableEq α] (s : SortedSet α) (a : α) :
    s.index? a = s.toList.idxOf? a := by
  by_cases ha : a ∈ s
  · rw [idxOf?_of_mem ha, index?_eq_some_iff]
    exact List.getElem?_idxOf ha
  · rw [index?_eq_none_iff.mpr ha, List.idxOf?_eq_none_iff.mpr ha]

theorem lt_size_of_mem_filterMap_index? {l : List α} (hi : i ∈ l.filterMap s.index?) :
    i < s.size := by
  obtain ⟨b, -, hb⟩ := List.mem_filterMap.mp hi
  exact (List.getElem?_eq_some_iff.mp (index?_eq_some_iff.mp hb)).1

theorem count_filterMap_index? [DecidableEq α] (hi : s.index? a = some i) (l : List α) :
    (l.filterMap s.index?).count i = l.count a := by
  rw [List.count_filterMap, List.count_eq_countP]
  refine List.countP_congr fun b _ => ?_
  rw [beq_iff_eq, beq_iff_eq, index?_eq_some_iff, index?_eq_some_iff.mp hi, Option.some.injEq,
    eq_comm]

end SortedSet

end DrawnModels
