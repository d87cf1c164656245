import DrawnModels.Proofs.Petri.Reachability

/-!
# Covering and acceleration place by place

A marking covers another if it has at least as many tokens on every place. Acceleration against a
covered marking changes just the places on which there are more.
-/

namespace DrawnModels

variable {cap : Capacity}

namespace Tokens

theorem le_refl (k : Tokens cap) : k ≤ k := by
  cases k with
  | finite n => exact Nat.le_refl n.val
  | omega => trivial

theorem le_iff {k l : Tokens cap} :
    k ≤ l ↔ l.isOmega = true ∨ k.isOmega = false ∧ k.number 0 ≤ l.number 0 := by
  cases l with
  | omega => exact ⟨fun _ => Or.inl rfl, fun _ => by cases k <;> trivial⟩
  | finite n =>
    cases k with
    | finite m => exact ⟨fun h => Or.inr ⟨rfl, h⟩, fun h => (h.resolve_left (by simp [isOmega])).2⟩
    | omega => exact ⟨fun h => False.elim h, fun h => by simp [isOmega] at h⟩

theorem lt_iff {k l : Tokens cap} :
    k < l ↔ k.isOmega = false ∧ (l.isOmega = true ∨ k.number 0 < l.number 0) := by
  cases k with
  | omega => exact ⟨fun h => by cases l <;> exact False.elim h, fun h => by simp [isOmega] at h⟩
  | finite m =>
    cases l with
    | finite n => exact ⟨fun h => ⟨rfl, Or.inr h⟩, fun h => h.2.resolve_left (by simp [isOmega])⟩
    | omega => exact ⟨fun _ => ⟨rfl, Or.inl rfl⟩, fun _ => trivial⟩

theorem lt_irrefl (k : Tokens cap) : ¬ k < k := by
  rw [lt_iff]
  rintro ⟨hk, hω | hlt⟩
  · rw [hk] at hω
    cases hω
  · exact Nat.lt_irrefl _ hlt

theorem le_trans {j k l : Tokens cap} (hjk : j ≤ k) (hkl : k ≤ l) : j ≤ l := by
  rw [le_iff] at *
  rcases hkl with hl | ⟨hk, hnum⟩
  · exact Or.inl hl
  · simp only [hk, Bool.false_eq_true, false_or] at hjk
    exact Or.inr ⟨hjk.1, Nat.le_trans hjk.2 hnum⟩

theorem exact_le_exact_iff {k l : Tokens cap} : k.exact ≤ l.exact ↔ k ≤ l := by
  simp only [le_iff, isOmega_exact, number_exact]

theorem eq_of_number {k l : Tokens cap} (hk : k.isOmega = false) (hl : l.isOmega = false)
    (h : k.number 0 = l.number 0) : k = l := by
  cases k with
  | finite m =>
    cases l with
    | finite n => exact congrArg finite (Count.ext h)
    | omega => cases hl
  | omega => cases hk

theorem eq_omega {k : Tokens cap} (h : k.isOmega = true) : k = omega := by
  cases k with
  | finite n => cases h
  | omega => rfl

theorem eq_of_le_of_not_lt {k l : Tokens cap} (hle : k ≤ l) (hlt : ¬ k < l) : k = l := by
  rw [lt_iff, not_and, not_or, Nat.not_lt, Bool.not_eq_true] at hlt
  rcases le_iff.mp hle with hl | ⟨hk, hnum⟩
  · cases hk : k.isOmega with
    | true => rw [eq_omega hk, eq_omega hl]
    | false => exact absurd hl (by simp [(hlt hk).1])
  · exact eq_of_number hk (hlt hk).1 (Nat.le_antisymm hnum (hlt hk).2)

end Tokens

namespace Marking

theorem isEqv_iff {r : Tokens cap → Tokens cap → Bool} (hr : r .zero .zero = true)
    {m n : Marking cap} :
    m.counts.isEqv n.counts r = true ↔ m.size = n.size ∧ ∀ p, r (m.get p) (n.get p) = true := by
  obtain ⟨ms⟩ := m
  obtain ⟨ns⟩ := n
  induction ms generalizing ns with
  | nil => cases ns <;> simp [size, get, hr]
  | cons k ms ih =>
    cases ns with
    | nil => simp [size]
    | cons l ns =>
      rw [List.isEqv_cons_cons, Bool.and_eq_true, ih]
      simp only [size, List.length_cons, Nat.add_right_cancel_iff]
      constructor
      · rintro ⟨hkl, hs, hget⟩
        refine ⟨hs, fun p => ?_⟩
        cases p with
        | zero => exact hkl
        | succ p => exact hget p
      · rintro ⟨hs, hget⟩
        exact ⟨hget 0, hs, fun p => hget (p + 1)⟩

theorem covers_iff {m n : Marking cap} :
    m.covers n = true ↔ m.size = n.size ∧ ∀ p, n.get p ≤ m.get p := by
  rw [covers, isEqv_iff (decide_eq_true (Tokens.le_refl _))]
  simp only [decide_eq_true_eq]

theorem covers_refl (m : Marking cap) : m.covers m = true :=
  covers_iff.mpr ⟨rfl, fun p => Tokens.le_refl (m.get p)⟩

theorem covers_of_forall_lt {m n : Marking cap} (hs : m.size = n.size)
    (h : ∀ p < m.size, n.get p ≤ m.get p) : m.covers n = true := by
  refine covers_iff.mpr ⟨hs, fun p => ?_⟩
  by_cases hp : p < m.size
  · exact h p hp
  · rw [get_eq_zero (Nat.le_of_not_lt hp), get_eq_zero (hs ▸ Nat.le_of_not_lt hp)]
    exact Tokens.le_refl _

theorem covers_of_strictlyCovers {m n : Marking cap} (h : m.strictlyCovers n = true) :
    m.covers n = true :=
  (Bool.and_eq_true_iff.mp h).1

theorem exists_lt_of_strictlyCovers {m n : Marking cap} (h : m.strictlyCovers n = true) :
    ∃ p < m.size, n.get p < m.get p := by
  obtain ⟨hcovers, hany⟩ := Bool.and_eq_true_iff.mp h
  have hs := (covers_iff.mp hcovers).1
  obtain ⟨e, he, hlt⟩ := List.any_eq_true.mp hany
  obtain ⟨p, hp, rfl⟩ := List.getElem_of_mem he
  rw [List.length_zip, Nat.lt_min] at hp
  rw [List.getElem_zip, decide_eq_true_eq] at hlt
  exact ⟨p, hp.1, by rwa [get_eq_getElem hp.1, get_eq_getElem hp.2]⟩

theorem strictlyCovers_of_ne {m n : Marking cap} (h : m.covers n = true) (hne : m ≠ n) :
    m.strictlyCovers n = true := by
  obtain ⟨hs, hle⟩ := covers_iff.mp h
  rw [strictlyCovers, h, Bool.true_and, List.any_eq_true]
  by_contra hnot
  refine hne (ext_get hs fun p => ?_)
  by_cases hp : p < m.size
  · refine (Tokens.eq_of_le_of_not_lt (hle p) fun hlt => hnot ?_).symm
    have hpn : p < n.size := hs ▸ hp
    have hzip : p < (m.counts.zip n.counts).length := by
      rw [List.length_zip]
      exact Nat.lt_min.mpr ⟨hp, hpn⟩
    refine ⟨_, List.getElem_mem hzip, ?_⟩
    rw [List.getElem_zip, decide_eq_true_eq]
    rwa [get_eq_getElem hp, get_eq_getElem hpn] at hlt
  · rw [get_eq_zero (Nat.le_of_not_lt hp), get_eq_zero (hs ▸ Nat.le_of_not_lt hp)]

/-- A marking has at least as many tokens as another on every place, and more on some. -/
structure Exceeds (m old : Marking cap) : Prop where
  size_eq : m.size = old.size
  le : ∀ p, old.get p ≤ m.get p
  exists_lt : ∃ p, old.get p < m.get p

theorem strictlyCovers_iff {m old : Marking cap} :
    m.strictlyCovers old = true ↔ m.Exceeds old := by
  constructor
  · intro h
    obtain ⟨hs, hle⟩ := covers_iff.mp (covers_of_strictlyCovers h)
    obtain ⟨p, -, hlt⟩ := exists_lt_of_strictlyCovers h
    exact ⟨hs, hle, p, hlt⟩
  · rintro ⟨hs, hle, p, hlt⟩
    apply strictlyCovers_of_ne (covers_iff.mpr ⟨hs, hle⟩)
    rintro rfl
    exact Tokens.lt_irrefl _ hlt

theorem get_accelerate {m old : Marking cap} (hs : m.size = old.size) (p : Nat) :
    (m.accelerate old).get p = if old.get p < m.get p then .omega else m.get p := by
  obtain ⟨ms⟩ := m
  obtain ⟨olds⟩ := old
  have hzero : ¬ (Tokens.zero : Tokens cap) < .zero := fun h => by simp [Tokens.lt_iff] at h
  induction ms generalizing olds p with
  | nil =>
    obtain rfl := List.eq_nil_of_length_eq_zero hs.symm
    simp [accelerate, raise, get, hzero]
  | cons k ms ih =>
    cases olds with
    | nil => cases hs
    | cons l olds =>
      cases p with
      | zero => rfl
      | succ p => exact ih p olds (Nat.succ.inj hs)

theorem get_accelerate_cases {m old : Marking cap} (h : m.covers old = true) (p : Nat) :
    old.get p < m.get p ∧ (m.accelerate old).get p = .omega ∨
      old.get p = m.get p ∧ (m.accelerate old).get p = m.get p := by
  obtain ⟨hs, hle⟩ := covers_iff.mp h
  rw [get_accelerate hs]
  by_cases hlt : old.get p < m.get p
  · exact Or.inl ⟨hlt, if_pos hlt⟩
  · exact Or.inr ⟨Tokens.eq_of_le_of_not_lt (hle p) hlt, if_neg hlt⟩

end Marking

end DrawnModels
