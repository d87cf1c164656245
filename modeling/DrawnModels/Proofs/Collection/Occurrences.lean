import Mathlib.Data.List.Basic

/-!
# First occurrences

A list without its repetitions lists its elements in the order of their first occurrences. An
element stands at the position of its first occurrence, and the first element with a property can be
found by going through the positions.
-/

namespace DrawnModels

universe u

variable {α : Type u} [DecidableEq α]

theorem idxOf_lt_of_filter {l : List α} {p : α → Bool} {a b : α} (ha : p a = true)
    (hb : p b = true) (h : (l.filter p).idxOf a < (l.filter p).idxOf b) :
    l.idxOf a < l.idxOf b := by
  induction l with
  | nil => exact h
  | cons c l ih =>
    by_cases hcb : c = b
    · subst hcb
      rw [List.filter_cons_of_pos hb, List.idxOf_cons_self] at h
      exact absurd h (Nat.not_lt_zero _)
    · rw [List.idxOf_cons_ne l hcb]
      by_cases hca : c = a
      · subst hca
        rw [List.idxOf_cons_self]
        exact Nat.succ_pos _
      · rw [List.idxOf_cons_ne l hca]
        refine Nat.succ_lt_succ (ih ?_)
        cases hc : p c with
        | true =>
          rw [List.filter_cons_of_pos hc, List.idxOf_cons_ne _ hca, List.idxOf_cons_ne _ hcb] at h
          exact Nat.lt_of_succ_lt_succ h
        | false => rwa [List.filter_cons_of_neg (by simp [hc])] at h

theorem pairwise_idxOf_eraseDups (l : List α) :
    l.eraseDups.Pairwise fun a b => l.idxOf a < l.idxOf b := by
  induction hn : l.length using Nat.strongRecOn generalizing l with
  | _ n ih =>
    cases l with
    | nil => simp
    | cons c l =>
      rw [List.eraseDups_cons, List.pairwise_cons]
      have hne : ∀ a ∈ (l.filter fun b => !b == c).eraseDups, a ≠ c := by
        intro a ha
        simpa using (List.mem_filter.mp (List.mem_eraseDups.mp ha)).2
      have hlt : (l.filter fun b => !b == c).length < n := by
        have := List.length_filter_le (fun b => !b == c) l
        rw [List.length_cons] at hn
        omega
      refine ⟨fun a ha => ?_, (ih _ hlt _ rfl).imp_of_mem fun ha hb hab => ?_⟩
      · rw [List.idxOf_cons_self, List.idxOf_cons_ne l (hne a ha).symm]
        exact Nat.succ_pos _
      · rw [List.idxOf_cons_ne l (hne _ ha).symm, List.idxOf_cons_ne l (hne _ hb).symm]
        apply Nat.succ_lt_succ
        exact idxOf_lt_of_filter (by simpa using hne _ ha) (by simpa using hne _ hb) hab

theorem nodup_eraseDups (l : List α) : l.eraseDups.Nodup := by
  apply (pairwise_idxOf_eraseDups l).imp
  rintro a _ hlt rfl
  exact Nat.lt_irrefl _ hlt

theorem eraseDups_concat (l : List α) (a : α) :
    (l ++ [a]).eraseDups = if a ∈ l then l.eraseDups else l.eraseDups ++ [a] := by
  rw [List.eraseDups_append]
  by_cases ha : a ∈ l
  · simp [ha, List.removeAll]
  · simp [ha, List.removeAll, List.eraseDups_cons]

theorem idxOf?_of_mem {l : List α} {a : α} (ha : a ∈ l) : l.idxOf? a = some (l.idxOf a) := by
  obtain ⟨i, hi⟩ := Option.isSome_iff_exists.mp (List.isSome_idxOf?.mpr ha)
  rw [List.idxOf_eq_getD_idxOf?, hi, Option.getD_some]

theorem idxOf_range {n i : Nat} (h : i < n) : (List.range n).idxOf i = i := by
  have hi := List.nodup_range.idxOf_getElem i (by simpa using h)
  simpa using hi

theorem find?_eraseDups (l : List α) (p : α → Bool) : l.eraseDups.find? p = l.find? p := by
  induction hn : l.length using Nat.strongRecOn generalizing l with
  | _ n ih =>
    cases l with
    | nil => simp
    | cons c l =>
      rw [List.eraseDups_cons, List.find?_cons, List.find?_cons]
      cases hc : p c with
      | true => rfl
      | false =>
        have hlt : (l.filter fun b => !b == c).length < n := by
          have := List.length_filter_le (fun b => !b == c) l
          rw [List.length_cons] at hn
          omega
        -- Left out are the later occurrences of `c`, which does not have the property.
        have hskip : (fun b => decide ((!b == c) = true ∧ p b = true)) = p := by
          funext b
          by_cases hb : b = c <;> simp [hb, hc]
        rw [ih _ hlt _ rfl, List.find?_filter, hskip]

omit [DecidableEq α] in
theorem exists_first {l : List α} {P : α → Prop} (h : ∃ a ∈ l, P a) :
    ∃ earlier a later, l = earlier ++ a :: later ∧ P a ∧ ∀ b ∈ earlier, ¬ P b := by
  induction l with
  | nil => simp at h
  | cons b l ih =>
    by_cases hb : P b
    · exact ⟨[], b, l, rfl, hb, by simp⟩
    · obtain ⟨earlier, a, later, rfl, ha, hearlier⟩ := ih (by simpa [hb] using h)
      exact ⟨b :: earlier, a, later, rfl, ha, List.forall_mem_cons.mpr ⟨hb, hearlier⟩⟩

omit [DecidableEq α] in
theorem findSome?_filter {β : Type u} (l : List α) (p : α → Bool) (f : α → Option β) :
    (l.filter p).findSome? f = l.findSome? fun a => if p a then f a else none := by
  induction l with
  | nil => rfl
  | cons a l ih => cases ha : p a <;> simp [List.findSome?_cons, ha, ih]

omit [DecidableEq α] in
theorem find?_eq_bind_range {l : List α} {p : α → Bool} {q : Nat → Bool}
    (h : ∀ i a, l[i]? = some a → q i = p a) :
    l.find? p = ((List.range l.length).find? q).bind (l[·]?) := by
  ext a
  rw [List.find?_eq_some_iff_getElem, Option.bind_eq_some_iff]
  simp only [List.find?_range_eq_some, List.mem_range]
  constructor
  · rintro ⟨ha, i, hi, rfl, hbefore⟩
    refine ⟨i, ⟨(h i _ (List.getElem?_eq_getElem hi)).trans ha, hi, fun j hj => ?_⟩,
      List.getElem?_eq_getElem hi⟩
    rw [h j _ (List.getElem?_eq_getElem (Nat.lt_trans hj hi))]
    exact hbefore j hj
  · rintro ⟨i, ⟨hq, hi, hbefore⟩, ha⟩
    refine ⟨(h i a ha).symm.trans hq, i, hi, (List.getElem?_eq_some_iff.mp ha).2, fun j hj => ?_⟩
    rw [← h j _ (List.getElem?_eq_getElem (Nat.lt_trans hj hi))]
    exact hbefore j hj

end DrawnModels
