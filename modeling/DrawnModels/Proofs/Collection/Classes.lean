import DrawnModels.Collection.Partition
import Mathlib.Data.List.Nodup
import Mathlib.Data.List.Pairwise
import Mathlib.Data.List.Perm.Subperm

/-!
# Classes that partition a list of members

A partition of a list of members has inhabited, pairwise disjoint classes that hold these members
and nothing else. This is what the check `coversExactly` decides. Splitting a class leaves the
classes disjoint and keeps their members; whether they stay inhabited depends on the halves.
-/

namespace DrawnModels

universe u

variable {α : Type u} [Ord α]

namespace SortedSet

theorem nodup_toList [Std.LawfulEqOrd α] (s : SortedSet α) : s.toList.Nodup := by
  apply s.sorted.imp
  rintro a b hab rfl
  rw [Std.ReflOrd.compare_self] at hab
  cases hab

theorem eq_of_mem_iff [Std.TransOrd α] [Std.LawfulEqOrd α] {s t : SortedSet α}
    (h : ∀ a, a ∈ s ↔ a ∈ t) : s = t := by
  have hp : s.toList.Perm t.toList :=
    (List.perm_ext_iff_of_nodup s.nodup_toList t.nodup_toList).mpr h
  have hl : s.toList = t.toList := by
    refine hp.eq_of_pairwise (fun a b _ _ hab hba => ?_) s.sorted t.sorted
    exact absurd hba (Std.OrientedCmp.not_lt_of_lt hab)
  cases s; cases t; cases hl; rfl

@[simp] theorem isEmpty_iff {s : SortedSet α} : s.isEmpty = true ↔ ∀ a, a ∉ s := by
  rw [isEmpty, List.isEmpty_iff, List.eq_nil_iff_forall_not_mem]
  rfl

theorem isEmpty_eq_false_iff {s : SortedSet α} : s.isEmpty = false ↔ ∃ a, a ∈ s := by
  rw [← Bool.not_eq_true, isEmpty_iff]
  push Not
  rfl

variable [DecidableEq α]

@[simp] theorem mem_inter {s t : SortedSet α} {a : α} : a ∈ s.inter t ↔ a ∈ s ∧ a ∈ t := by
  simp [inter]

@[simp] theorem mem_diff {s t : SortedSet α} {a : α} : a ∈ s.diff t ↔ a ∈ s ∧ a ∉ t := by
  simp [diff]

end SortedSet

namespace Partition

/-- The classes are pairwise disjoint and hold the members and nothing else. Some may be empty. -/
structure Separates (p : Partition α) (members : List α) : Prop where
  disjoint : p.classes.Pairwise fun c d => ∀ a ∈ c, a ∉ d
  mem_iff : ∀ a, (∃ c ∈ p.classes, a ∈ c) ↔ a ∈ members

/-- The classes are inhabited and pairwise disjoint, and hold the members and nothing else. -/
structure Divides (p : Partition α) (members : List α) : Prop where
  inhabited : ∀ c ∈ p.classes, ∃ a, a ∈ c
  disjoint : p.classes.Pairwise fun c d => ∀ a ∈ c, a ∉ d
  mem_iff : ∀ a, (∃ c ∈ p.classes, a ∈ c) ↔ a ∈ members

theorem divides_iff {p : Partition α} {members : List α} :
    p.Divides members ↔ p.Separates members ∧ ∀ c ∈ p.classes, ∃ a, a ∈ c := by
  constructor
  · intro h
    exact ⟨⟨h.disjoint, h.mem_iff⟩, h.inhabited⟩
  · rintro ⟨h, hinhabited⟩
    exact ⟨hinhabited, h.disjoint, h.mem_iff⟩

theorem Divides.separates {p : Partition α} {members : List α} (h : p.Divides members) :
    p.Separates members :=
  (divides_iff.mp h).1

namespace Separates

variable {p : Partition α} {members : List α}

theorem classOf?_eq_some_iff [DecidableEq α] (h : p.Separates members) {a : α} {i : Nat} :
    p.classOf? a = some i ↔ ∃ c, p.classes[i]? = some c ∧ a ∈ c := by
  rw [classOf?, List.findIdx?_eq_some_iff_getElem]
  constructor
  · rintro ⟨hi, ha, -⟩
    exact ⟨_, List.getElem?_eq_getElem hi, by simpa using ha⟩
  · rintro ⟨c, hc, ha⟩
    obtain ⟨hi, rfl⟩ := List.getElem?_eq_some_iff.mp hc
    refine ⟨hi, by simpa using ha, fun j hji => ?_⟩
    have hdisj := List.pairwise_iff_getElem.mp h.disjoint j i (Nat.lt_trans hji hi) hi hji
    simpa using fun haj => hdisj a haj ha

/-- Every member is found, and no other class holds it. -/
theorem exists_classOf? [DecidableEq α] (h : p.Separates members) {a : α} (ha : a ∈ members) :
    ∃ i, p.classOf? a = some i ∧ ∀ j c, p.classes[j]? = some c → a ∈ c → j = i := by
  obtain ⟨c, hc, hac⟩ := (h.mem_iff a).mpr ha
  obtain ⟨i, hi⟩ := List.mem_iff_getElem?.mp hc
  have hfound := h.classOf?_eq_some_iff.mpr ⟨c, hi, hac⟩
  refine ⟨i, hfound, fun j d hj had => ?_⟩
  have hfound' := h.classOf?_eq_some_iff.mpr ⟨d, hj, had⟩
  exact Option.some.inj (hfound'.symm.trans hfound)

end Separates

namespace Divides

variable {p : Partition α} {members : List α}

theorem nodup (h : p.Divides members) : p.classes.Nodup := by
  apply h.disjoint.imp_of_mem
  rintro c d hc - hcd rfl
  obtain ⟨a, ha⟩ := h.inhabited c hc
  exact hcd a ha ha

theorem exists_class (h : p.Divides members) {a : α} (ha : a ∈ members) :
    ∃ c ∈ p.classes, a ∈ c :=
  (h.mem_iff a).mpr ha

theorem mem_members (h : p.Divides members) {c : SortedSet α} (hc : c ∈ p.classes) {a : α}
    (ha : a ∈ c) : a ∈ members :=
  (h.mem_iff a).mp ⟨c, hc, ha⟩

theorem classOf?_eq_some_iff [DecidableEq α] (h : p.Divides members) {a : α} {i : Nat} :
    p.classOf? a = some i ↔ ∃ c, p.classes[i]? = some c ∧ a ∈ c :=
  h.separates.classOf?_eq_some_iff

theorem eq_of_mem (h : p.Divides members) {c d : SortedSet α} (hc : c ∈ p.classes)
    (hd : d ∈ p.classes) {a : α} (hac : a ∈ c) (had : a ∈ d) : c = d := by
  by_contra hne
  have : Std.Symm fun c d : SortedSet α => ∀ a ∈ c, a ∉ d := ⟨fun c d hcd a had hac => hcd a hac had⟩
  exact h.disjoint.forall hc hd hne a hac had

theorem size_le [DecidableEq α] (h : p.Divides members) : p.size ≤ members.length := by
  -- Every position is one at which some member is found.
  have hsub : List.range p.size ⊆ members.filterMap p.classOf? := by
    intro i hi
    have hc := List.getElem?_eq_getElem (List.mem_range.mp hi)
    obtain ⟨a, ha⟩ := h.inhabited _ (List.mem_of_getElem? hc)
    have hfound : p.classOf? a = some i := h.classOf?_eq_some_iff.mpr ⟨_, hc, ha⟩
    exact List.mem_filterMap.mpr ⟨a, h.mem_members (List.mem_of_getElem? hc) ha, hfound⟩
  calc p.size = (List.range p.size).length := List.length_range.symm
    _ ≤ (members.filterMap p.classOf?).length := (List.nodup_range.subperm hsub).length_le
    _ ≤ members.length := List.length_filterMap_le _ _

end Divides

variable [DecidableEq α] [Std.TransOrd α] [Std.LawfulEqOrd α]

theorem areHalves_iff {c left right : SortedSet α} :
    areHalves c left right = true ↔
      (∀ a ∈ left, a ∉ right) ∧ ∀ a, a ∈ c ↔ a ∈ left ∨ a ∈ right := by
  rw [areHalves, Bool.and_eq_true, SortedSet.isEmpty_iff, decide_eq_true_iff]
  refine and_congr (by simp) ⟨fun h a => by simp [← h], fun h => ?_⟩
  exact SortedSet.eq_of_mem_iff fun a => by simp [h a]

theorem split_eq_done_iff {p q : Partition α} {c left right : SortedSet α} :
    p.split c left right = .done q ↔
      c ∈ p.classes ∧ areHalves c left right = true ∧
        q = ⟨p.classes.erase c ++ [left, right]⟩ := by
  unfold split
  split
  · rename_i hc
    split
    · rename_i hh
      simp [hc, hh, eq_comm]
    · rename_i hh
      simp [hh]
  · rename_i hc
    simp [hc]

/-- A class can always be cut into its members inside and outside a set. -/
theorem split_inter_diff {p : Partition α} {c : SortedSet α} (hc : c ∈ p.classes)
    (x : SortedSet α) : p.split c (c.inter x) (c.diff x) =
      .done ⟨p.classes.erase c ++ [c.inter x, c.diff x]⟩ := by
  refine split_eq_done_iff.mpr ⟨hc, areHalves_iff.mpr ⟨?_, fun a => ?_⟩, rfl⟩
  · intro a ha ha'
    exact (SortedSet.mem_diff.mp ha').2 (SortedSet.mem_inter.mp ha).2
  · rw [SortedSet.mem_inter, SortedSet.mem_diff, ← and_or_left]
    simp [Classical.em]

/-- Splitting a class keeps the members and leaves the classes disjoint. -/
theorem Separates.split {p q : Partition α} {members : List α} {c left right : SortedSet α}
    (h : p.Separates members) (hs : p.split c left right = .done q) : q.Separates members := by
  obtain ⟨hc, hh, rfl⟩ := split_eq_done_iff.mp hs
  obtain ⟨hdisj, hmem⟩ := areHalves_iff.mp hh
  have hperm : p.classes.Perm (c :: p.classes.erase c) := List.perm_cons_erase hc
  have hpair := (hperm.pairwise_iff fun hcd a had hac => hcd a hac had).mp h.disjoint
  obtain ⟨hother, hrest⟩ := List.pairwise_cons.mp hpair
  refine ⟨List.pairwise_append.mpr ⟨hrest, by simpa using hdisj, ?_⟩, fun a => ?_⟩
  · intro d hd e he a had hae
    have hec : a ∈ c := by
      rcases List.mem_pair.mp he with rfl | rfl
      · exact (hmem a).mpr (Or.inl hae)
      · exact (hmem a).mpr (Or.inr hae)
    exact hother d hd a hec had
  · rw [← h.mem_iff a]
    simp only [hperm.mem_iff, List.mem_append, List.mem_cons, List.not_mem_nil, or_false,
      or_and_right, exists_or, exists_eq_left, hmem a]
    exact or_comm

theorem inhabited_split_iff {p q : Partition α} {c left right : SortedSet α}
    (hs : p.split c left right = .done q) :
    (∀ d ∈ q.classes, ∃ a, a ∈ d) ↔
      (∀ d ∈ p.classes, ∃ a, a ∈ d) ∧ (∃ a, a ∈ left) ∧ ∃ a, a ∈ right := by
  obtain ⟨hc, hh, rfl⟩ := split_eq_done_iff.mp hs
  have hmem := (areHalves_iff.mp hh).2
  have hperm : p.classes.Perm (c :: p.classes.erase c) := List.perm_cons_erase hc
  simp only [hperm.mem_iff, List.forall_mem_append, List.forall_mem_cons, List.not_mem_nil,
    false_implies, implies_true, and_true]
  constructor
  · rintro ⟨hrest, ⟨a, ha⟩, hright⟩
    exact ⟨⟨⟨a, (hmem a).mpr (Or.inl ha)⟩, hrest⟩, ⟨a, ha⟩, hright⟩
  · rintro ⟨⟨-, hrest⟩, hhalves⟩
    exact ⟨hrest, hhalves⟩

/-- Splitting a class into inhabited halves keeps the members and leaves the classes disjoint. -/
theorem Divides.split {p q : Partition α} {members : List α} {c left right : SortedSet α}
    (h : p.Divides members) (hs : p.split c left right = .done q)
    (hl : ∃ a, a ∈ left) (hr : ∃ a, a ∈ right) : q.Divides members :=
  divides_iff.mpr ⟨h.separates.split hs, (inhabited_split_iff hs).mpr ⟨h.inhabited, hl, hr⟩⟩

/-! ### The check -/

/-- Gathering goes through if the classes are inhabited, disjoint from what was seen before and
disjoint from each other, and then it has seen all their members. -/
theorem gather_eq_some_iff {classes : List (SortedSet α)} {seen all : SortedSet α} :
    gather seen classes = some all ↔
      (∀ c ∈ classes, ∃ a, a ∈ c) ∧ (∀ c ∈ classes, ∀ a ∈ seen, a ∉ c) ∧
        (classes.Pairwise fun c d => ∀ a ∈ c, a ∉ d) ∧
          ∀ a, a ∈ all ↔ a ∈ seen ∨ ∃ c ∈ classes, a ∈ c := by
  induction classes generalizing seen with
  | nil =>
    rw [gather, Option.some.injEq]
    constructor
    · rintro rfl
      simp
    · rintro ⟨-, -, -, hall⟩
      exact SortedSet.eq_of_mem_iff fun a => by simp [hall a]
  | cons c rest ih =>
    rw [gather]
    split
    · rename_i hfault
      rw [Bool.or_eq_true, SortedSet.isEmpty_iff, Bool.not_eq_true',
        SortedSet.isEmpty_eq_false_iff] at hfault
      constructor
      · intro h
        cases h
      · rintro ⟨hinhabited, hseen, -, -⟩
        obtain hempty | ⟨a, ha⟩ := hfault
        · obtain ⟨a, ha⟩ := hinhabited c List.mem_cons_self
          exact absurd ha (hempty a)
        · obtain ⟨has, hac⟩ := SortedSet.mem_inter.mp ha
          exact absurd hac (hseen c List.mem_cons_self a has)
    · rename_i hok
      simp only [Bool.not_eq_true, Bool.or_eq_false_iff, Bool.not_eq_false',
        SortedSet.isEmpty_eq_false_iff, SortedSet.isEmpty_iff, SortedSet.mem_inter,
        not_and] at hok
      obtain ⟨hc, hcseen⟩ := hok
      simp only [ih, List.forall_mem_cons, List.pairwise_cons, SortedSet.mem_union, or_imp,
        forall_and, List.exists_mem_cons_iff, or_assoc]
      constructor
      · rintro ⟨hin, ⟨hseen, hother⟩, hdisj, hall⟩
        exact ⟨⟨hc, hin⟩, ⟨hcseen, hseen⟩, ⟨hother, hdisj⟩, hall⟩
      · rintro ⟨⟨-, hin⟩, ⟨-, hseen⟩, ⟨hother, hdisj⟩, hall⟩
        exact ⟨hin, ⟨hseen, hother⟩, hdisj, hall⟩

theorem coversExactly_iff {p : Partition α} {members : List α} :
    p.coversExactly members = true ↔ p.Divides members := by
  rw [coversExactly, decide_eq_true_iff, gather_eq_some_iff]
  simp only [SortedSet.mem_ofList, SortedSet.not_mem_empty, false_or]
  constructor
  · rintro ⟨hinhabited, -, hdisjoint, hall⟩
    exact ⟨hinhabited, hdisjoint, fun a => (hall a).symm⟩
  · intro h
    exact ⟨h.inhabited, by simp, h.disjoint, fun a => (h.mem_iff a).symm⟩

end Partition

end DrawnModels
