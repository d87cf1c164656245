import DrawnModels.Petri.Marking
import Mathlib.Data.List.GetD
import Mathlib.Tactic.ByContra

/-!
# Firing place by place

A transition takes its tokens one at a time and then puts its tokens one at a time. Altogether it
changes every place once: by the weight of the arc from it and the weight of the arc to it.
-/

namespace DrawnModels

variable {cap : Capacity}

theorem Capacity.clamp_clamp_add (cap : Capacity) (m n : Nat) :
    cap.clamp (cap.clamp m + n) = cap.clamp (m + n) := by
  cases cap with
  | upTo most => simp only [clamp]; omega
  | unlimited => rfl

namespace Tokens

/-- The count after `taken` tokens have gone and then `put` tokens have come. -/
def moved (taken put : Nat) : Tokens cap → Tokens cap
  | finite n => finite (.ofNat cap (n.val - taken + put))
  | omega => omega

@[simp] theorem moved_omega (taken put : Nat) : (omega : Tokens cap).moved taken put = omega := rfl

@[simp] theorem moved_zero (k : Tokens cap) : k.moved 0 0 = k := by
  cases k with
  | finite n => exact congrArg finite (Count.ext (Capacity.clamp_eq_self n.allowed))
  | omega => rfl

theorem moved_take (k : Tokens cap) (i j : Nat) : (k.moved i 0).moved j 0 = k.moved (i + j) 0 := by
  cases k with
  | finite n =>
    refine congrArg finite (Count.ext ?_)
    have : cap.clamp (n.val - i) = n.val - i :=
      Capacity.clamp_eq_self (n.allowed.mono (Nat.sub_le _ _))
    simp only [Count.ofNat, Nat.add_zero, this, Nat.sub_sub]
  | omega => rfl

theorem moved_put (k : Tokens cap) (i o j : Nat) : (k.moved i o).moved 0 j = k.moved i (o + j) := by
  cases k with
  | finite n =>
    refine congrArg finite (Count.ext ?_)
    simp only [Count.ofNat, Nat.sub_zero, Capacity.clamp_clamp_add, Nat.add_assoc]
  | omega => rfl

theorem atLeast_moved_take {k : Tokens cap} {i : Nat} (h : k.atLeast i = true) (j : Nat) :
    (k.moved i 0).atLeast j = k.atLeast (i + j) := by
  cases k with
  | finite n =>
    have hn : i ≤ n.val := of_decide_eq_true h
    have : cap.clamp (n.val - i) = n.val - i :=
      Capacity.clamp_eq_self (n.allowed.mono (Nat.sub_le _ _))
    simp only [moved, atLeast, Count.ofNat, Nat.add_zero, this, decide_eq_decide]
    omega
  | omega => rfl

theorem atLeast_mono {k : Tokens cap} {i j : Nat} (h : k.atLeast j = true) (hij : i ≤ j) :
    k.atLeast i = true := by
  cases k with
  | finite n => exact decide_eq_true (Nat.le_trans hij (of_decide_eq_true h))
  | omega => rfl

@[simp] theorem atLeast_zero (k : Tokens cap) : k.atLeast 0 = true := by
  cases k <;> simp [atLeast]

theorem not_atLeast_zero_succ (i : Nat) : (zero : Tokens cap).atLeast (i + 1) = false := by
  have : cap.clamp 0 = 0 := by cases cap <;> simp [Capacity.clamp]
  simp [zero, atLeast, Count.zero, Count.ofNat, this]

theorem pred?_eq_some_iff {k l : Tokens cap} :
    k.pred? = some l ↔ k.atLeast 1 = true ∧ l = k.moved 1 0 := by
  cases k with
  | finite n =>
    have : cap.clamp (n.val - 1) = n.val - 1 :=
      Capacity.clamp_eq_self (n.allowed.mono (Nat.sub_le _ _))
    by_cases hn : n.val = 0
    · simp [pred?, Count.pred?, hn, atLeast]
    · have hpos : 1 ≤ n.val := by omega
      simp [pred?, Count.pred?, hn, hpos, atLeast, moved, Count.ofNat, this, eq_comm]
  | omega => simp [pred?, atLeast, eq_comm]

theorem succ_eq_moved (k : Tokens cap) : k.succ = k.moved 0 1 := by
  cases k <;> rfl

end Tokens

namespace Marking

theorem get_eq_getElem {m : Marking cap} {p : Nat} (h : p < m.counts.length) :
    m.get p = m.counts[p] :=
  List.getD_eq_getElem _ _ h

theorem get_eq_zero {m : Marking cap} {p : Nat} (h : m.size ≤ p) : m.get p = .zero :=
  List.getD_eq_default _ _ h

theorem get_resized (m : Marking cap) {p places : Nat} (hp : p < places) :
    (m.resized places).get p = m.get p := by
  have hlt : p < (m.resized places).counts.length := Nat.lt_of_lt_of_eq hp (size_resized m places).symm
  rw [get_eq_getElem hlt]
  simp [resized]

theorem ext_get {m n : Marking cap} (hs : m.size = n.size) (h : ∀ p, m.get p = n.get p) :
    m = n := by
  have hcounts : m.counts = n.counts := by
    apply List.ext_getElem hs
    intro p hm hn
    rw [← get_eq_getElem hm, ← get_eq_getElem hn]
    exact h p
  cases m; cases n; cases hcounts; rfl

theorem get_set {m : Marking cap} {p : Nat} (h : p < m.size) (k : Tokens cap) (q : Nat) :
    (⟨m.counts.set p k⟩ : Marking cap).get q = if q = p then k else m.get q := by
  simp only [get, List.getD_eq_getElem?_getD, List.getElem?_set]
  by_cases hq : p = q
  · subst hq
    simp [show p < m.counts.length from h]
  · simp [hq, eq_comm]

theorem lt_size_of_atLeast {m : Marking cap} {p i : Nat} (hi : 0 < i)
    (h : (m.get p).atLeast i = true) : p < m.size := by
  by_contra hp
  rw [get_eq_zero (Nat.le_of_not_lt hp)] at h
  obtain ⟨j, rfl⟩ := Nat.exists_eq_add_of_lt hi
  rw [Nat.zero_add, Tokens.not_atLeast_zero_succ] at h
  cases h

theorem eq_set_moved_iff {m n : Marking cap} {p : Nat} (hp : p < m.size) (i o : Nat) :
    n = ⟨m.counts.set p ((m.get p).moved i o)⟩ ↔ n.size = m.size ∧
      ∀ q, n.get q = (m.get q).moved (if q = p then i else 0) (if q = p then o else 0) := by
  have hset : ∀ q, (⟨m.counts.set p ((m.get p).moved i o)⟩ : Marking cap).get q =
      (m.get q).moved (if q = p then i else 0) (if q = p then o else 0) := by
    intro q
    rw [get_set hp]
    by_cases hq : q = p <;> simp [hq]
  constructor
  · rintro rfl
    exact ⟨by simp [size], hset⟩
  · rintro ⟨hs, hget⟩
    exact ext_get (by simpa [size] using hs) fun q => (hget q).trans (hset q).symm

/-- Counts may change on every place of a marking at once. -/
theorem exists_moved (m : Marking cap) {i o : Nat → Nat}
    (h : ∀ p, m.size ≤ p → i p = 0 ∧ o p = 0) :
    ∃ n : Marking cap, n.size = m.size ∧ ∀ p, n.get p = (m.get p).moved (i p) (o p) := by
  have hs : (⟨m.counts.mapIdx fun p k => k.moved (i p) (o p)⟩ : Marking cap).size = m.size := by
    simp [size]
  refine ⟨_, hs, fun p => ?_⟩
  by_cases hp : p < m.size
  · rw [get_eq_getElem (Nat.lt_of_lt_of_eq hp hs.symm), get_eq_getElem hp]
    exact List.getElem_mapIdx
  · obtain ⟨hi, ho⟩ := h p (Nat.le_of_not_lt hp)
    rw [get_eq_zero (hs.symm ▸ Nat.le_of_not_lt hp), get_eq_zero (Nat.le_of_not_lt hp), hi, ho,
      Tokens.moved_zero]

theorem getElem?_counts {m : Marking cap} {p : Nat} (hp : p < m.size) :
    m.counts[p]? = some (m.get p) := by
  rw [get_eq_getElem hp]
  exact List.getElem?_eq_getElem hp

theorem take?_eq {m : Marking cap} {p : Nat} (h : (m.get p).atLeast 1 = true) :
    m.take? p = some ⟨m.counts.set p ((m.get p).moved 1 0)⟩ := by
  have hpred : (m.get p).pred? = some ((m.get p).moved 1 0) := Tokens.pred?_eq_some_iff.mpr ⟨h, rfl⟩
  simp [take?, getElem?_counts (lt_size_of_atLeast Nat.one_pos h), hpred]

theorem put?_eq {m : Marking cap} {p : Nat} (hp : p < m.size) :
    m.put? p = some ⟨m.counts.set p ((m.get p).moved 0 1)⟩ := by
  simp [put?, getElem?_counts hp, Tokens.succ_eq_moved]

theorem atLeast_of_take? {m n : Marking cap} {p : Nat} (h : m.take? p = some n) :
    (m.get p).atLeast 1 = true := by
  unfold take? at h
  split at h
  · rename_i k hk
    obtain ⟨hp, rfl⟩ := List.getElem?_eq_some_iff.mp hk
    obtain ⟨l, hl, -⟩ := Option.map_eq_some_iff.mp h
    rw [get_eq_getElem hp]
    exact (Tokens.pred?_eq_some_iff.mp hl).1
  · cases h

theorem lt_size_of_put? {m n : Marking cap} {p : Nat} (h : m.put? p = some n) : p < m.size := by
  unfold put? at h
  split at h
  · rename_i k hk
    exact (List.getElem?_eq_some_iff.mp hk).1
  · cases h

theorem count_singleton_eq_ite (p q : Nat) : [p].count q = if q = p then 1 else 0 := by
  by_cases h : q = p
  · simp [h]
  · simp [h, Ne.symm h]

theorem take?_eq_some_iff {m n : Marking cap} {p : Nat} :
    m.take? p = some n ↔ (m.get p).atLeast 1 = true ∧ n.size = m.size ∧
      ∀ q, n.get q = (m.get q).moved ([p].count q) 0 := by
  have key (h : (m.get p).atLeast 1 = true) : m.take? p = some n ↔ n.size = m.size ∧
      ∀ q, n.get q = (m.get q).moved ([p].count q) 0 := by
    rw [take?_eq h, Option.some.injEq, eq_comm, eq_set_moved_iff (lt_size_of_atLeast Nat.one_pos h)]
    simp only [count_singleton_eq_ite, ite_self]
  exact ⟨fun h => ⟨atLeast_of_take? h, (key (atLeast_of_take? h)).mp h⟩, fun h => (key h.1).mpr h.2⟩

theorem put?_eq_some_iff {m n : Marking cap} {p : Nat} :
    m.put? p = some n ↔ p < m.size ∧ n.size = m.size ∧
      ∀ q, n.get q = (m.get q).moved 0 ([p].count q) := by
  have key (h : p < m.size) : m.put? p = some n ↔ n.size = m.size ∧
      ∀ q, n.get q = (m.get q).moved 0 ([p].count q) := by
    rw [put?_eq h, Option.some.injEq, eq_comm, eq_set_moved_iff h]
    simp only [count_singleton_eq_ite, ite_self]
  exact ⟨fun h => ⟨lt_size_of_put? h, (key (lt_size_of_put? h)).mp h⟩, fun h => (key h.1).mpr h.2⟩

theorem count_cons_eq_add (p q : Nat) (places : List Nat) :
    (p :: places).count q = [p].count q + places.count q := by
  rw [← List.count_append, List.singleton_append]

/-- Taking tokens in turn succeeds if every place holds as many as are taken from it. -/
theorem foldlM_take?_eq_some_iff {places : List Nat} {m n : Marking cap} :
    places.foldlM take? m = some n ↔
      (∀ p, (m.get p).atLeast (places.count p) = true) ∧ n.size = m.size ∧
        ∀ p, n.get p = (m.get p).moved (places.count p) 0 := by
  induction places generalizing m with
  | nil =>
    simp only [List.foldlM_nil, List.count_nil, Tokens.moved_zero, Tokens.atLeast_zero]
    constructor
    · rintro ⟨⟩
      simp
    · rintro ⟨-, hs, hget⟩
      exact congrArg some (ext_get hs.symm fun p => (hget p).symm)
  | cons p places ih =>
    rw [List.foldlM_cons, Option.bind_eq_bind, Option.bind_eq_some_iff]
    constructor
    · rintro ⟨k, hk, hn⟩
      obtain ⟨hpos, hks, hkget⟩ := take?_eq_some_iff.mp hk
      obtain ⟨hle, hns, hnget⟩ := ih.mp hn
      have hone : ∀ q, (m.get q).atLeast ([p].count q) = true := by
        intro q
        by_cases hq : q = p
        · simpa [hq] using hpos
        · simp [Ne.symm hq]
      refine ⟨fun q => ?_, hns.trans hks, fun q => ?_⟩
      · rw [count_cons_eq_add, ← Tokens.atLeast_moved_take (hone q), ← hkget q]
        exact hle q
      · rw [count_cons_eq_add, ← Tokens.moved_take, ← hkget q]
        exact hnget q
    · rintro ⟨hle, hns, hnget⟩
      have hone : ∀ q, (m.get q).atLeast ([p].count q) = true := fun q =>
        Tokens.atLeast_mono (hle q) (count_cons_eq_add p q places ▸ Nat.le_add_right _ _)
      have hk := take?_eq (by simpa using hone p)
      obtain ⟨-, hks, hkget⟩ := take?_eq_some_iff.mp hk
      refine ⟨_, hk, ih.mpr ⟨fun q => ?_, hns.trans hks.symm, fun q => ?_⟩⟩
      · rw [hkget q, Tokens.atLeast_moved_take (hone q), ← count_cons_eq_add]
        exact hle q
      · rw [hkget q, Tokens.moved_take, ← count_cons_eq_add]
        exact hnget q

theorem foldlM_put?_eq_some_iff {places : List Nat} {m n : Marking cap} :
    places.foldlM put? m = some n ↔
      (∀ p ∈ places, p < m.size) ∧ n.size = m.size ∧
        ∀ p, n.get p = (m.get p).moved 0 (places.count p) := by
  induction places generalizing m with
  | nil =>
    simp only [List.foldlM_nil, List.count_nil, Tokens.moved_zero]
    constructor
    · rintro ⟨⟩
      simp
    · rintro ⟨-, hs, hget⟩
      exact congrArg some (ext_get hs.symm fun p => (hget p).symm)
  | cons p places ih =>
    rw [List.foldlM_cons, Option.bind_eq_bind, Option.bind_eq_some_iff, List.forall_mem_cons]
    constructor
    · rintro ⟨k, hk, hn⟩
      obtain ⟨hp, hks, hkget⟩ := put?_eq_some_iff.mp hk
      obtain ⟨hlt, hns, hnget⟩ := ih.mp hn
      rw [hks] at hlt hns
      refine ⟨⟨hp, hlt⟩, hns, fun q => ?_⟩
      rw [count_cons_eq_add, ← Tokens.moved_put, ← hkget q]
      exact hnget q
    · rintro ⟨⟨hp, hlt⟩, hns, hnget⟩
      have hk := put?_eq hp
      obtain ⟨-, hks, hkget⟩ := put?_eq_some_iff.mp hk
      refine ⟨_, hk, ih.mpr ⟨fun q hq => hks.symm ▸ hlt q hq, hns.trans hks.symm, fun q => ?_⟩⟩
      rw [hkget q, Tokens.moved_put, ← count_cons_eq_add]
      exact hnget q

theorem enables_iff {m : Marking cap} {t : Transition} :
    m.enables t = true ↔ ∀ p, (m.get p).atLeast (t.inputWeight p) = true := by
  rw [enables, List.all_eq_true]
  refine ⟨fun h p => ?_, fun h p _ => h p⟩
  by_cases hp : p ∈ t.inputs
  · exact h p hp
  · rw [Transition.inputWeight, List.count_eq_zero_of_not_mem hp]
    exact Tokens.atLeast_zero _

theorem lt_size_of_mem_inputs {m : Marking cap} {t : Transition} (h : m.enables t = true) {p : Nat}
    (hp : p ∈ t.inputs) : p < m.size :=
  lt_size_of_atLeast (List.count_pos_iff.mpr hp) (enables_iff.mp h p)

/-- A transition fires if it is enabled and its output places are there, and then every place
changes by the weights of its arcs. -/
theorem fire?_eq_some_iff {m n : Marking cap} {t : Transition} :
    m.fire? t = some n ↔ m.enables t = true ∧ (∀ p ∈ t.outputs, p < m.size) ∧ n.size = m.size ∧
      ∀ p, n.get p = (m.get p).moved (t.inputWeight p) (t.outputWeight p) := by
  rw [fire?, Option.bind_eq_some_iff, enables_iff]
  constructor
  · rintro ⟨k, hk, hn⟩
    obtain ⟨hle, hks, hkget⟩ := foldlM_take?_eq_some_iff.mp hk
    obtain ⟨hlt, hns, hnget⟩ := foldlM_put?_eq_some_iff.mp hn
    rw [hks] at hlt hns
    refine ⟨hle, hlt, hns, fun p => ?_⟩
    rw [hnget p, hkget p, Tokens.moved_put, Nat.zero_add]
    rfl
  · rintro ⟨hle, hlt, hns, hnget⟩
    obtain ⟨k, hks, hkget⟩ := m.exists_moved (i := t.inputWeight) (o := fun _ => 0) fun p hp =>
      ⟨Nat.eq_zero_of_not_pos fun hpos =>
        Nat.not_lt_of_le hp (lt_size_of_atLeast hpos (hle p)), rfl⟩
    refine ⟨k, foldlM_take?_eq_some_iff.mpr ⟨hle, hks, hkget⟩, foldlM_put?_eq_some_iff.mpr
      ⟨fun p hp => hks.symm ▸ hlt p hp, hns.trans hks.symm, fun p => ?_⟩⟩
    rw [hkget p, hnget p, Tokens.moved_put, Nat.zero_add]
    rfl

theorem exists_fire? {m : Marking cap} {t : Transition} (hen : m.enables t = true)
    (hout : ∀ p ∈ t.outputs, p < m.size) : ∃ m', m.fire? t = some m' := by
  obtain ⟨m', hs, hget⟩ := m.exists_moved (i := t.inputWeight) (o := t.outputWeight) fun p hp =>
    ⟨List.count_eq_zero_of_not_mem fun h => Nat.not_lt_of_le hp (lt_size_of_mem_inputs hen h),
      List.count_eq_zero_of_not_mem fun h => Nat.not_lt_of_le hp (hout p h)⟩
  exact ⟨m', fire?_eq_some_iff.mpr ⟨hen, hout, hs, hget⟩⟩

/-- `m'` has the tokens of `m` after `t` has fired, with finite counts cut off at the limit. -/
structure IsAfterFiring {most : Nat} (m' m : Marking (.upTo most)) (t : Transition) : Prop where
  size_eq : m'.size = m.size
  omega : ∀ p, m.get p = .omega → m'.get p = .omega
  finite : ∀ p k, m.get p = .finite k → t.inputWeight p ≤ k.val ∧
    ∃ k', m'.get p = .finite k' ∧ k'.val = min (k.val - t.inputWeight p + t.outputWeight p) most

theorem isAfterFiring_of_fire? {most : Nat} {m m' : Marking (.upTo most)} {t : Transition}
    (h : m.fire? t = some m') : m'.IsAfterFiring m t := by
  obtain ⟨hen, -, hs, hget⟩ := fire?_eq_some_iff.mp h
  refine ⟨hs, fun p hp => ?_, fun p k hp => ?_⟩
  · rw [hget p, hp, Tokens.moved_omega]
  · have hle := enables_iff.mp hen p
    rw [hp] at hle
    have hmoved := hget p
    rw [hp] at hmoved
    exact ⟨of_decide_eq_true hle, _, hmoved, rfl⟩

/-- A transition fires exactly if it is enabled and its output places are there. Then ω stays ω, and
a finite count loses the weight of the arc from its place and gains the weight of the arc to it. -/
theorem exists_fire?_iff_and_isAfterFiring {most : Nat} (m : Marking (.upTo most))
    (t : Transition) :
    ((∃ m', m.fire? t = some m') ↔ m.enables t = true ∧ ∀ p ∈ t.outputs, p < m.size) ∧
      ∀ m', m.fire? t = some m' → m'.IsAfterFiring m t := by
  refine ⟨⟨?_, ?_⟩, fun m' => isAfterFiring_of_fire?⟩
  · rintro ⟨m', hm'⟩
    obtain ⟨hen, hout, -⟩ := fire?_eq_some_iff.mp hm'
    exact ⟨hen, hout⟩
  · rintro ⟨hen, hout⟩
    exact exists_fire? hen hout

end Marking

end DrawnModels
