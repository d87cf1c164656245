import DrawnModels.Collection.KeyedList
import DrawnModels.Proofs.Collection.Occurrences
import Mathlib.Data.List.Induction

/-!
# Entries of keyed lists

What is found under a key is the entry with this key, and pairs with distinct keys are kept as they
are given. Of other pairs the keys are kept in the order in which they come first, each with the value
that comes last. Keyed lists are the same map if the same is found under every key.
-/

namespace DrawnModels

namespace KeyedList

universe u v

variable {κ : Type u} {α : Type v} [DecidableEq κ]

theorem lookup_eq_some_iff {l : List (κ × α)} (hl : (l.map Prod.fst).Nodup) {k : κ} {a : α} :
    l.lookup k = some a ↔ (k, a) ∈ l := by
  induction l with
  | nil => simp
  | cons e rest ih =>
    obtain ⟨he, hrest⟩ := List.nodup_cons.mp hl
    rw [lookup_cons_eq_ite, List.mem_cons]
    by_cases hk : k = e.1
    · subst hk
      have hnot : (e.1, a) ∉ rest := fun h => he (List.mem_map.mpr ⟨_, h, rfl⟩)
      simp [Prod.ext_iff, hnot, eq_comm]
    · simp [hk, Prod.ext_iff, ih hrest]

theorem find?_eq_some_iff {l : KeyedList κ α} {k : κ} {a : α} :
    l.find? k = some a ↔ (k, a) ∈ l.entries :=
  lookup_eq_some_iff l.keys_nodup

theorem mem_keys_iff {l : KeyedList κ α} {k : κ} : k ∈ l.keys ↔ ∃ a, l.find? k = some a := by
  rw [← contains_iff, contains, Option.isSome_iff_exists]

theorem sameMap_iff [DecidableEq α] {l m : KeyedList κ α} :
    l.sameMap m = true ↔ ∀ k, l.find? k = m.find? k := by
  simp only [sameMap, Bool.and_eq_true, List.all_eq_true, decide_eq_true_eq]
  constructor
  · rintro ⟨hlm, hml⟩ k
    ext a
    exact ⟨fun h => hlm _ (find?_eq_some_iff.mp h), fun h => hml _ (find?_eq_some_iff.mp h)⟩
  · intro h
    refine ⟨fun e he => ?_, fun e he => ?_⟩
    · rw [← h]
      exact find?_eq_some_iff.mpr he
    · rw [h]
      exact find?_eq_some_iff.mpr he

theorem mem_of_mem_put {k : κ} {a : α} {l : List (κ × α)} {e : κ × α} (h : e ∈ put k a l) :
    e = (k, a) ∨ e ∈ l := by
  induction l with
  | nil => exact Or.inl (List.mem_singleton.mp h)
  | cons f rest ih =>
    rw [put] at h
    split at h
    · exact (List.mem_cons.mp h).imp_right (List.mem_cons_of_mem f)
    · rcases List.mem_cons.mp h with rfl | h
      · exact Or.inr List.mem_cons_self
      · exact (ih h).imp_right (List.mem_cons_of_mem f)

theorem mem_entries_foldl_insert {pairs : List (κ × α)} {l : KeyedList κ α} {e : κ × α}
    (h : e ∈ (pairs.foldl (fun l e => l.insert e.1 e.2) l).entries) :
    e ∈ l.entries ∨ e ∈ pairs := by
  induction pairs generalizing l with
  | nil => exact Or.inl h
  | cons f rest ih =>
    rcases ih h with h | h
    · rcases mem_of_mem_put h with rfl | h
      · exact Or.inr List.mem_cons_self
      · exact Or.inl h
    · exact Or.inr (List.mem_cons_of_mem f h)

theorem mem_of_mem_entries_ofList {pairs : List (κ × α)} {e : κ × α}
    (h : e ∈ (ofList pairs).entries) : e ∈ pairs :=
  (mem_entries_foldl_insert (l := empty) h).resolve_left List.not_mem_nil

theorem put_of_not_mem {k : κ} {l : List (κ × α)} (h : k ∉ l.map Prod.fst) (a : α) :
    put k a l = l ++ [(k, a)] := by
  induction l with
  | nil => rfl
  | cons e rest ih =>
    simp only [List.map_cons, List.mem_cons, not_or] at h
    rw [put, if_neg (Ne.symm h.1), ih h.2, List.cons_append]

theorem entries_insert {l : KeyedList κ α} {k : κ} (h : l.find? k = none) (a : α) :
    (l.insert k a).entries = l.entries ++ [(k, a)] := by
  apply put_of_not_mem
  intro hk
  obtain ⟨b, hb⟩ := mem_keys_iff.mp hk
  rw [h] at hb
  cases hb

theorem entries_foldl_insert {pairs : List (κ × α)} {l : KeyedList κ α}
    (h : ((l.entries ++ pairs).map Prod.fst).Nodup) :
    (pairs.foldl (fun l e => l.insert e.1 e.2) l).entries = l.entries ++ pairs := by
  induction pairs generalizing l with
  | nil => simp
  | cons e rest ih =>
    have hput : (l.insert e.1 e.2).entries = l.entries ++ [e] := by
      refine put_of_not_mem (fun he => ?_) e.2
      rw [List.map_append, List.nodup_append] at h
      exact h.2.2 e.1 he e.1 (by simp) rfl
    rw [List.foldl_cons, ih, hput, List.append_assoc, List.singleton_append]
    simpa [hput] using h

theorem entries_ofList {pairs : List (κ × α)} (h : (pairs.map Prod.fst).Nodup) :
    (ofList pairs).entries = pairs :=
  entries_foldl_insert (l := empty) h

/-! ### Keyed lists of pairs with repeated keys -/

theorem ofList_concat (pairs : List (κ × α)) (e : κ × α) :
    ofList (pairs ++ [e]) = (ofList pairs).insert e.1 e.2 := by
  rw [ofList, List.foldl_append]
  rfl

/-- A key stands where it was given first. -/
theorem keys_ofList (pairs : List (κ × α)) :
    (ofList pairs).keys = (pairs.map Prod.fst).eraseDups := by
  induction pairs using List.reverseRecOn with
  | nil => rfl
  | append_singleton pairs e ih =>
    rw [ofList_concat, keys_insert, ih, List.map_append, List.map_singleton, eraseDups_concat]
    simp only [List.mem_eraseDups]

/-- Under a key is found what was given last. -/
theorem find?_ofList_of_not_mem {k : κ} {later : List (κ × α)} (h : k ∉ later.map Prod.fst)
    (earlier : List (κ × α)) (a : α) :
    (ofList (earlier ++ (k, a) :: later)).find? k = some a := by
  induction later using List.reverseRecOn with
  | nil => rw [ofList_concat, find?_insert, if_pos rfl]
  | append_singleton later e ih =>
    rw [List.map_append, List.mem_append, not_or, List.map_singleton, List.mem_singleton] at h
    rw [← List.cons_append, ← List.append_assoc, ofList_concat, find?_insert, if_neg h.2, ih h.1]

/-! ### Keyed lists that tabulate a function -/

variable {l : KeyedList κ α} {keys : List κ} {f : κ → α}

theorem entries_ofList_map (h : keys.Nodup) :
    (ofList (keys.map fun k => (k, f k))).entries = keys.map fun k => (k, f k) := by
  apply entries_ofList
  rw [List.map_map]
  exact (List.map_id keys).symm ▸ h

omit [DecidableEq κ] in
theorem keys_eq_of_entries (h : l.entries = keys.map fun k => (k, f k)) : l.keys = keys := by
  rw [KeyedList.keys, h, List.map_map]
  exact List.map_id keys

theorem entries_modify (h : l.entries = keys.map fun k => (k, f k)) (k : κ) (g : α → α) :
    (l.modify k g).entries = keys.map fun j => (j, if j = k then g (f j) else f j) := by
  simp only [modify, h, List.map_map, Function.comp_def]

end KeyedList

end DrawnModels
