import DrawnModels.Collection.Partition
import Mathlib.Data.List.Dedup
import Mathlib.Data.List.Perm.Subperm
import Mathlib.Data.List.Nodup

/-!
# Partitions that agree

Partitions agree if they have as many classes and the classes of the first all occur in the second.
Agreement is reflexive and transitive. If no class of the first occurs twice, the second has the same
classes in some order; otherwise it may have other ones in the place of a repeated class, so that
agreement is not symmetric.
-/

namespace DrawnModels

namespace Partition

universe u

variable {α : Type u} [Ord α] [DecidableEq α] {p q r : Partition α}

theorem agrees_iff :
    p.agrees q = true ↔ p.classes.length = q.classes.length ∧ p.classes ⊆ q.classes := by
  simp [agrees, size, List.subset_def]

theorem agrees_refl (p : Partition α) : p.agrees p = true :=
  agrees_iff.mpr ⟨rfl, List.Subset.refl p.classes⟩

theorem agrees_trans (hpq : p.agrees q = true) (hqr : q.agrees r = true) : p.agrees r = true := by
  obtain ⟨hlength, hsubset⟩ := agrees_iff.mp hpq
  obtain ⟨hlength', hsubset'⟩ := agrees_iff.mp hqr
  exact agrees_iff.mpr ⟨hlength.trans hlength', List.Subset.trans hsubset hsubset'⟩

theorem agrees_of_perm (h : q.classes.Perm p.classes) : p.agrees q = true :=
  agrees_iff.mpr ⟨h.length_eq.symm, h.symm.subset⟩

/-- Distinct classes leave no room for others in a list of the same length. -/
theorem agrees_iff_perm (hp : p.classes.Nodup) : p.agrees q = true ↔ q.classes.Perm p.classes := by
  constructor
  · intro h
    obtain ⟨hlength, hsubset⟩ := agrees_iff.mp h
    exact ((hp.subperm hsubset).perm_of_length_le (Nat.le_of_eq hlength.symm)).symm
  · exact agrees_of_perm

/-- The classes without repetitions, and `c` as often as classes are repeated. -/
def filledUp (p : Partition α) (c : SortedSet α) : Partition α :=
  ⟨p.classes.dedup ++ List.replicate (p.classes.length - p.classes.dedup.length) c⟩

theorem agrees_filledUp (p : Partition α) (c : SortedSet α) : p.agrees (p.filledUp c) = true := by
  have hle : p.classes.dedup.length ≤ p.classes.length := p.classes.dedup_sublist.length_le
  refine agrees_iff.mpr ⟨?_, fun d hd => ?_⟩
  · rw [filledUp, List.length_append, List.length_replicate, Nat.add_sub_cancel' hle]
  · exact List.mem_append_left _ (List.mem_dedup.mpr hd)

theorem mem_filledUp (hp : ¬ p.classes.Nodup) (c : SortedSet α) : c ∈ (p.filledUp c).classes := by
  have hne : p.classes.dedup.length ≠ p.classes.length := by
    intro h
    rw [p.classes.dedup_sublist.length_eq, List.dedup_eq_self] at h
    exact hp h
  have hle : p.classes.dedup.length ≤ p.classes.length := p.classes.dedup_sublist.length_le
  refine List.mem_append_right _ (List.mem_replicate.mpr ⟨?_, rfl⟩)
  exact Nat.sub_ne_zero_of_lt (Nat.lt_of_le_of_ne hle hne)

theorem not_filledUp_agrees (hp : ¬ p.classes.Nodup) {c : SortedSet α} (hc : c ∉ p.classes) :
    ¬ (p.filledUp c).agrees p = true := by
  intro h
  exact hc ((agrees_iff.mp h).2 (mem_filledUp hp c))

/-- Agreement is reflexive and transitive, and holds if the classes are the same in some order. For a
partition without repeated classes it holds only then, so that it is symmetric. For one with a
repeated class it is not, as long as there is a set that is no class. -/
theorem agrees_refl_trans_and_perm :
    (∀ p : Partition α, p.agrees p = true) ∧
      (∀ p q r : Partition α, p.agrees q = true → q.agrees r = true → p.agrees r = true) ∧
      (∀ p q : Partition α, q.classes.Perm p.classes → p.agrees q = true ∧ q.agrees p = true) ∧
      (∀ p : Partition α, p.classes.Nodup →
        ∀ q, (p.agrees q = true ↔ q.classes.Perm p.classes) ∧
          (p.agrees q = true → q.agrees p = true)) ∧
      ∀ (p : Partition α) (c : SortedSet α), ¬ p.classes.Nodup → c ∉ p.classes →
        ∃ q, p.agrees q = true ∧ ¬ q.agrees p = true ∧ ¬ q.classes.Perm p.classes := by
  refine ⟨agrees_refl, fun p q r => agrees_trans, fun p q h => ?_, fun p hp q => ?_,
    fun p c hp hc => ?_⟩
  · exact ⟨agrees_of_perm h, agrees_of_perm h.symm⟩
  · refine ⟨agrees_iff_perm hp, fun h => ?_⟩
    exact agrees_of_perm ((agrees_iff_perm hp).mp h).symm
  · have hnot := not_filledUp_agrees hp hc
    exact ⟨p.filledUp c, agrees_filledUp p c, hnot, fun h => hnot (agrees_of_perm h.symm)⟩

/-- The same class twice, against two different ones. -/
theorem not_agrees_symm_repeated :
    (ofClasses [.ofList [0], .ofList [0]] : Partition Nat).agrees
        (ofClasses [.ofList [0], .ofList [1]]) = true ∧
      ¬ (ofClasses [.ofList [0], .ofList [1]] : Partition Nat).agrees
        (ofClasses [.ofList [0], .ofList [0]]) = true ∧
      ¬ (ofClasses [.ofList [0], .ofList [1]] : Partition Nat).classes.Perm
        (ofClasses [.ofList [0], .ofList [0]]).classes := by
  decide

end Partition

end DrawnModels
