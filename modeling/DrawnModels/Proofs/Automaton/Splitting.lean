import DrawnModels.Automaton.Refinement
import DrawnModels.Proofs.Automaton.Behaviour

/-!
# What refinement preserves

Two facts about a refinement carry its proof. It is `Sound`: the classes divide the states, states
of one class accept alike, and indistinguishable states are never put into different classes. And
it is `Accounted`: where two states of one class move into different classes, some block that is
still to be used tells them apart as well. The second fact survives although only the smaller half
of a block may wait, because a block and one of its halves tell the other half apart.
-/

namespace DrawnModels

namespace Refinement

variable {d : Dfa}

/-- The refinement after the block `b` was cut by `x`. -/
def cut (r : Refinement) (x b : Block) : Refinement :=
  ⟨⟨r.partition.classes.erase b ++ [b.inter x, b.diff x]⟩,
    requeue r.waiting b (b.inter x) (b.diff x)⟩

/-- A class is uniform if a set holds all of it or nothing. -/
def Uniform (x c : Block) : Prop :=
  (∀ q ∈ c, q ∈ x) ∨ ∀ q ∈ c, q ∉ x

theorem uniform_inter (x b : Block) : Uniform x (b.inter x) :=
  Or.inl fun _ hq => (SortedSet.mem_inter.mp hq).2

theorem uniform_diff (x b : Block) : Uniform x (b.diff x) :=
  Or.inr fun _ hq => (SortedSet.mem_diff.mp hq).2

/-- Splitting a class leaves it if it is uniform, and cuts it otherwise. -/
theorem splitBlock_cases {r : Refinement} {b : Block} (hb : b ∈ r.partition.classes) (x : Block) :
    (Uniform x b ∧ splitBlock x r b = .ok r) ∨
      ((∃ q, q ∈ b.inter x) ∧ (∃ q, q ∈ b.diff x) ∧ splitBlock x r b = .ok (r.cut x b)) := by
  by_cases hin : (b.inter x).isEmpty = true
  · refine Or.inl ⟨Or.inr fun q hq hqx => ?_, by simp [splitBlock, hin]⟩
    exact SortedSet.isEmpty_iff.mp hin q (SortedSet.mem_inter.mpr ⟨hq, hqx⟩)
  · by_cases hout : (b.diff x).isEmpty = true
    · refine Or.inl ⟨Or.inl fun q hq => ?_, by simp [splitBlock, hout]⟩
      by_contra hqx
      exact SortedSet.isEmpty_iff.mp hout q (SortedSet.mem_diff.mpr ⟨hq, hqx⟩)
    · rw [Bool.not_eq_true] at hin hout
      refine Or.inr ⟨SortedSet.isEmpty_eq_false_iff.mp hin,
        SortedSet.isEmpty_eq_false_iff.mp hout, ?_⟩
      simp [splitBlock, hin, hout, Partition.split_inter_diff hb x, cut]

theorem mem_requeue {waiting : List Block} {b inside outside c : Block}
    (h : c ∈ requeue waiting b inside outside) :
    (c ∈ waiting ∧ c ≠ b) ∨ (c ∈ waiting ∧ b ∉ waiting) ∨ c = inside ∨ c = outside := by
  unfold requeue at h
  split at h
  · simp only [List.mem_cons, List.mem_filter, decide_eq_true_eq] at h
    tauto
  · split at h <;> simp only [List.mem_cons] at h <;> tauto

theorem mem_requeue_of_ne {waiting : List Block} {b inside outside c : Block}
    (hc : c ∈ waiting) (hne : c ≠ b) : c ∈ requeue waiting b inside outside := by
  unfold requeue
  split
  · simp [hc, hne]
  · split <;> simp [hc]

/-- One of the halves waits, and both do if the block waited. -/
theorem halves_mem_requeue (waiting : List Block) (b inside outside : Block) :
    (inside ∈ requeue waiting b inside outside ∨ outside ∈ requeue waiting b inside outside) ∧
      (b ∈ waiting → inside ∈ requeue waiting b inside outside ∧
        outside ∈ requeue waiting b inside outside) := by
  unfold requeue
  split
  · simp
  · rename_i hb
    split <;> simp [hb]

theorem mem_classes_cut_iff {r : Refinement} (hn : r.partition.classes.Nodup) {x b c : Block} :
    c ∈ (r.cut x b).partition.classes ↔
      (c ∈ r.partition.classes ∧ c ≠ b) ∨ c = b.inter x ∨ c = b.diff x := by
  rw [cut, List.mem_append, hn.mem_erase_iff, List.mem_pair, and_comm]

/-- A cut leaves nothing waiting that is no class. -/
theorem mem_classes_cut_of_mem_waiting {r : Refinement} (hn : r.partition.classes.Nodup)
    (hw : ∀ c ∈ r.waiting, c ∈ r.partition.classes) {x b c : Block}
    (hc : c ∈ (r.cut x b).waiting) : c ∈ (r.cut x b).partition.classes := by
  rw [mem_classes_cut_iff hn]
  rcases mem_requeue hc with ⟨hc, hne⟩ | ⟨hc, hb⟩ | hin | hout
  · exact Or.inl ⟨hw c hc, hne⟩
  · exact Or.inl ⟨hw c hc, fun e => hb (e ▸ hc)⟩
  · exact Or.inr (Or.inl hin)
  · exact Or.inr (Or.inr hout)

/-! ### Soundness -/

/-- The classes divide the states and are unions of classes of indistinguishable states that accept
alike, and only classes wait. -/
structure Sound (d : Dfa) (r : Refinement) : Prop where
  divides : r.partition.Divides (List.range d.size)
  waiting_mem : ∀ b ∈ r.waiting, b ∈ r.partition.classes
  accepting : ∀ b ∈ r.partition.classes, ∀ p ∈ b, ∀ q ∈ b, d.isAccepting p = d.isAccepting q
  coarse : ∀ b ∈ r.partition.classes, ∀ p ∈ b, ∀ q < d.size, d.Indistinguishable p q → q ∈ b

/-- A set of states that indistinguishable states are in or out of together. -/
def Saturated (d : Dfa) (x : Block) : Prop :=
  ∀ p ∈ x, ∀ q < d.size, d.Indistinguishable p q → q ∈ x

theorem mem_predecessors {a : String} {c : Block} {q : Nat} :
    q ∈ predecessors d a c ↔ q < d.size ∧ d.movesInto q a c = true := by
  simp [predecessors, Dfa.movesInto]

theorem Saturated.predecessors {c : Block} (hc : Saturated d c) (hd : d.IsClosed) {a : String}
    (ha : a ∈ d.alphabet) : Saturated d (predecessors d a c) := by
  intro p hp q hq hpq
  obtain ⟨p', hp', hpc⟩ := Dfa.movesInto_iff.mp (mem_predecessors.mp hp).2
  obtain ⟨q', hq', hpq'⟩ := hpq.successor? ha hp'
  have hqc : q' ∈ c := hc p' hpc q' (hd q a q' hq') hpq'
  exact mem_predecessors.mpr ⟨hq, Dfa.movesInto_iff.mpr ⟨q', hq', hqc⟩⟩

theorem Sound.mem_cut {r : Refinement} (h : Sound d r) {x b c : Block}
    (hc : c ∈ (r.cut x b).partition.classes) :
    (c ∈ r.partition.classes ∧ c ≠ b) ∨ c = b.inter x ∨ c = b.diff x :=
  (mem_classes_cut_iff h.divides.nodup).mp hc

theorem Sound.mem_cut_of_ne {r : Refinement} (h : Sound d r) {x b c : Block}
    (hc : c ∈ r.partition.classes) (hne : c ≠ b) : c ∈ (r.cut x b).partition.classes :=
  (mem_classes_cut_iff h.divides.nodup).mpr (Or.inl ⟨hc, hne⟩)

theorem Sound.subset_of_mem_cut {r : Refinement} (h : Sound d r) {x b c : Block}
    (hb : b ∈ r.partition.classes) (hc : c ∈ (r.cut x b).partition.classes) :
    ∃ e ∈ r.partition.classes, ∀ q ∈ c, q ∈ e := by
  rcases h.mem_cut hc with ⟨hc, -⟩ | rfl | rfl
  · exact ⟨c, hc, fun _ hq => hq⟩
  · exact ⟨b, hb, fun _ hq => (SortedSet.mem_inter.mp hq).1⟩
  · exact ⟨b, hb, fun _ hq => (SortedSet.mem_diff.mp hq).1⟩

theorem Sound.cut {r : Refinement} (h : Sound d r) {x b : Block} (hb : b ∈ r.partition.classes)
    (hx : Saturated d x) (hin : ∃ q, q ∈ b.inter x) (hout : ∃ q, q ∈ b.diff x) :
    Sound d (r.cut x b) where
  divides := h.divides.split (Partition.split_inter_diff hb x) hin hout
  waiting_mem _ hc := mem_classes_cut_of_mem_waiting h.divides.nodup h.waiting_mem hc
  accepting c hc p hp q hq := by
    obtain ⟨e, he, hsub⟩ := h.subset_of_mem_cut hb hc
    exact h.accepting e he p (hsub p hp) q (hsub q hq)
  coarse c hc p hp q hq hpq := by
    rcases h.mem_cut hc with ⟨hc, -⟩ | rfl | rfl
    · exact h.coarse c hc p hp q hq hpq
    · obtain ⟨hpb, hpx⟩ := SortedSet.mem_inter.mp hp
      exact SortedSet.mem_inter.mpr ⟨h.coarse b hb p hpb q hq hpq, hx p hpx q hq hpq⟩
    · obtain ⟨hpb, hpx⟩ := SortedSet.mem_diff.mp hp
      have hps : p < d.size := List.mem_range.mp (h.divides.mem_members hb hpb)
      exact SortedSet.mem_diff.mpr ⟨h.coarse b hb p hpb q hq hpq,
        fun hqx => hpx (hx q hqx p hps hpq.symm)⟩

/-! ### Accounting -/

/-- Whether exactly one of two states moves into `c` on a symbol. -/
def Separates (d : Dfa) (a : String) (c : Block) (p q : Nat) : Prop :=
  d.movesInto p a c ≠ d.movesInto q a c

/-- Where a class separates two states of one class, so does a block that waits, or else `splitter`
does on one of the symbols `todo`. -/
def Accounted (d : Dfa) (splitter : Block) (todo : List String) (r : Refinement) : Prop :=
  ∀ b ∈ r.partition.classes, ∀ p ∈ b, ∀ q ∈ b, ∀ a ∈ d.alphabet, ∀ c ∈ r.partition.classes,
    Separates d a c p q →
      (∃ w ∈ r.waiting, Separates d a w p q) ∨ (a ∈ todo ∧ Separates d a splitter p q)

theorem movesInto_inter_or_diff (d : Dfa) (q : Nat) (a : String) (b x : Block) :
    d.movesInto q a b = (d.movesInto q a (b.inter x) || d.movesInto q a (b.diff x)) := by
  simp only [Dfa.movesInto]
  cases d.successor? q a with
  | none => rfl
  | some p => by_cases hp : p ∈ x <;> simp [hp]

theorem not_movesInto_inter_and_diff (d : Dfa) (q : Nat) (a : String) (b x : Block) :
    (d.movesInto q a (b.inter x) && d.movesInto q a (b.diff x)) = false := by
  simp only [Dfa.movesInto]
  cases d.successor? q a with
  | none => rfl
  | some p => by_cases hp : p ∈ x <;> simp [hp]

/-- A block that separates two states has a half that does. -/
theorem Separates.half {a : String} {b : Block} {p q : Nat} (h : Separates d a b p q) (x : Block) :
    Separates d a (b.inter x) p q ∨ Separates d a (b.diff x) p q := by
  unfold Separates at *
  rw [movesInto_inter_or_diff d p a b x, movesInto_inter_or_diff d q a b x] at h
  by_contra hne
  push Not at hne
  exact h (by rw [hne.1, hne.2])

/-- A half that separates two states which the block does not separate is as good as the other. -/
theorem separates_inter_iff_diff {a : String} {b : Block} {p q : Nat}
    (h : ¬ Separates d a b p q) (x : Block) :
    Separates d a (b.inter x) p q ↔ Separates d a (b.diff x) p q := by
  unfold Separates at *
  rw [movesInto_inter_or_diff d p a b x, movesInto_inter_or_diff d q a b x] at h
  have hp := not_movesInto_inter_and_diff d p a b x
  have hq := not_movesInto_inter_and_diff d q a b x
  revert h hp hq
  cases d.movesInto p a (b.inter x) <;> cases d.movesInto p a (b.diff x) <;>
    cases d.movesInto q a (b.inter x) <;> cases d.movesInto q a (b.diff x) <;> simp

/-- The heart of the matter: a cut keeps the account, whichever half is made to wait. -/
theorem Accounted.cut {r : Refinement} {splitter : Block} {todo : List String}
    (h : Accounted d splitter todo r) (hr : Sound d r) {x b : Block}
    (hb : b ∈ r.partition.classes) : Accounted d splitter todo (r.cut x b) := by
  intro e he p hp q hq a ha c hc hsep
  obtain ⟨e', he', hsub⟩ := hr.subset_of_mem_cut hb he
  -- What waited before still separates: itself, or one of its halves if it is the block.
  have keep : (∃ w ∈ r.waiting, Separates d a w p q) ∨ (a ∈ todo ∧ Separates d a splitter p q) →
      (∃ w ∈ (r.cut x b).waiting, Separates d a w p q) ∨
        (a ∈ todo ∧ Separates d a splitter p q) := by
    rintro (⟨w, hw, hsw⟩ | hs)
    · left
      by_cases hwb : w = b
      · subst hwb
        obtain ⟨hmin, hmout⟩ := (halves_mem_requeue r.waiting w (w.inter x) (w.diff x)).2 hw
        rcases hsw.half x with hs | hs
        · exact ⟨_, hmin, hs⟩
        · exact ⟨_, hmout, hs⟩
      · exact ⟨w, mem_requeue_of_ne hw hwb, hsw⟩
    · exact Or.inr hs
  have old (c : Block) (hc : c ∈ r.partition.classes) (hs : Separates d a c p q) :=
    keep (h e' he' p (hsub p hp) q (hsub q hq) a ha c hc hs)
  by_cases hsb : Separates d a b p q
  · exact old b hb hsb
  · have hhalves := separates_inter_iff_diff hsb x
    rcases hr.mem_cut hc with ⟨hc, -⟩ | rfl | rfl
    · exact old c hc hsep
    · left
      rcases (halves_mem_requeue r.waiting b (b.inter x) (b.diff x)).1 with hm | hm
      · exact ⟨_, hm, hsep⟩
      · exact ⟨_, hm, hhalves.mp hsep⟩
    · left
      rcases (halves_mem_requeue r.waiting b (b.inter x) (b.diff x)).1 with hm | hm
      · exact ⟨_, hm, hhalves.mpr hsep⟩
      · exact ⟨_, hm, hsep⟩

end Refinement

end DrawnModels
