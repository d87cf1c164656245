import DrawnModels.Proofs.Collection.Classes

/-!
# Checking a partition element by element

The check of a partition goes through the classes and in each class through its elements. It stops at
a class without elements and at an element that it has seen before, and in the end it compares what it
has seen with the members. Since a class lists no element twice, it amounts to the same whether the
elements of a class are compared with those seen before at once or one after the other.
-/

namespace DrawnModels

namespace Partition

universe u

variable {α : Type u} [Ord α]

theorem pairwise_disjoint_iff {classes : List (SortedSet α)} :
    (classes.Pairwise fun c d => ∀ a ∈ c, a ∉ d) ↔
      ∀ (i j : Nat) (c d : SortedSet α), classes[i]? = some c → classes[j]? = some d → i ≠ j →
        ∀ a ∈ c, a ∉ d := by
  rw [List.pairwise_iff_getElem]
  constructor
  · intro h i j c d hc hd hij a hac had
    obtain ⟨hi, rfl⟩ := List.getElem?_eq_some_iff.mp hc
    obtain ⟨hj, rfl⟩ := List.getElem?_eq_some_iff.mp hd
    rcases Nat.lt_or_gt_of_ne hij with hlt | hgt
    · exact h i j hi hj hlt a hac had
    · exact h j i hj hi hgt a had hac
  · intro h i j hi hj hlt
    exact h i j _ _ (List.getElem?_eq_getElem hi) (List.getElem?_eq_getElem hj) (Nat.ne_of_lt hlt)

variable [DecidableEq α] [Std.TransOrd α] [Std.LawfulEqOrd α]

/-- Adds elements one after the other to those seen before, and stops at one that is among them. -/
def see? (seen : SortedSet α) : List α → Option (SortedSet α)
  | [] => some seen
  | a :: rest => if a ∈ seen then none else see? (seen.insert a) rest

/-- Goes through the classes and through the elements of each, and stops at a class without elements
and at an element that was seen before. -/
def seeAll? (seen : SortedSet α) : List (SortedSet α) → Option (SortedSet α)
  | [] => some seen
  | c :: rest => if c.isEmpty then none else (see? seen c.toList).bind fun seen => seeAll? seen rest

theorem see?_of_nodup {l : List α} (hl : l.Nodup) (seen : SortedSet α) :
    see? seen l = if ∀ a ∈ l, a ∉ seen then some (l.foldl SortedSet.insert seen) else none := by
  induction l generalizing seen with
  | nil => simp [see?]
  | cons a rest ih =>
    obtain ⟨ha, hrest⟩ := List.nodup_cons.mp hl
    rw [see?]
    split
    · rename_i hseen
      rw [if_neg fun h => h a List.mem_cons_self hseen]
    · rename_i hnew
      have hiff : (∀ b ∈ rest, b ∉ seen.insert a) ↔ ∀ b ∈ a :: rest, b ∉ seen := by
        rw [List.forall_mem_cons, and_iff_right hnew]
        refine forall₂_congr fun b hb => ?_
        rw [SortedSet.mem_insert, not_or, and_iff_right (ne_of_mem_of_not_mem hb ha)]
      rw [ih hrest, List.foldl_cons]
      simp only [hiff]

theorem see?_toList (seen c : SortedSet α) :
    see? seen c.toList = if (seen.inter c).isEmpty then some (seen.union c) else none := by
  have hiff : (∀ a ∈ c.toList, a ∉ seen) ↔ (seen.inter c).isEmpty = true := by
    simp only [SortedSet.isEmpty_iff, SortedSet.mem_inter, not_and']
    rfl
  rw [see?_of_nodup c.nodup_toList]
  simp only [hiff]
  rfl

theorem seeAll?_eq_gather (seen : SortedSet α) (classes : List (SortedSet α)) :
    seeAll? seen classes = gather seen classes := by
  induction classes generalizing seen with
  | nil => rfl
  | cons c rest ih =>
    rw [seeAll?, gather, see?_toList]
    cases c.isEmpty <;> cases (seen.inter c).isEmpty <;> simp [ih]

/-- Going through classes and elements ends with the members if and only if no class is empty, classes
at different positions have no element in common, and the elements of the classes are the members. This
is what the check answers. -/
theorem coversExactly_iff_positions (p : Partition α) (members : List α) :
    (p.coversExactly members = true ↔ seeAll? .empty p.classes = some (.ofList members)) ∧
      (p.coversExactly members = true ↔
        (∀ c ∈ p.classes, ∃ a, a ∈ c) ∧
          (∀ (i j : Nat) (c d : SortedSet α), p.classes[i]? = some c → p.classes[j]? = some d → i ≠ j →
            ∀ a ∈ c, a ∉ d) ∧
          ∀ a, (∃ c ∈ p.classes, a ∈ c) ↔ a ∈ members) := by
  constructor
  · rw [coversExactly, decide_eq_true_iff, seeAll?_eq_gather]
  · rw [coversExactly_iff, ← pairwise_disjoint_iff]
    constructor
    · intro h
      exact ⟨h.inhabited, h.disjoint, h.mem_iff⟩
    · rintro ⟨hinhabited, hdisjoint, hmem⟩
      exact ⟨hinhabited, hdisjoint, hmem⟩

/-- The members may come in any order and again. Classes that overlap are found out, and so is a class
that is there twice. -/
theorem coversExactly_positions_numbers :
    (⟨[.ofList [2, 1], .ofList [0]]⟩ : Partition Nat).coversExactly [0, 2, 1, 2] = true ∧
      ¬ (⟨[.ofList [0, 1], .ofList [1, 2]]⟩ : Partition Nat).coversExactly [0, 1, 2] = true ∧
      ¬ (⟨[.ofList [0], .ofList [0]]⟩ : Partition Nat).coversExactly [0] = true := by
  refine ⟨(coversExactly_iff_positions _ _).1.mpr (by decide), fun hcovers => ?_, fun hcovers => ?_⟩
  · obtain ⟨-, hdisjoint, -⟩ := (coversExactly_iff_positions _ _).2.mp hcovers
    exact hdisjoint 0 1 _ _ rfl rfl (by decide) 1 (by decide) (by decide)
  · obtain ⟨-, hdisjoint, -⟩ := (coversExactly_iff_positions _ _).2.mp hcovers
    exact hdisjoint 0 1 _ _ rfl rfl (by decide) 0 (by decide) (by decide)

end Partition

end DrawnModels
