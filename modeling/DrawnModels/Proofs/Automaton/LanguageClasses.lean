import DrawnModels.Proofs.Automaton.Splitting
import DrawnModels.Proofs.Automaton.Validated
import DrawnModels.Proofs.Collection.Folds

/-!
# Classes of states that accept the same words

Refinement goes through on every automaton whose moves lead to states, and its classes are those of
the indistinguishable states. One splitter is followed block by block and symbol by symbol, and then
the stack of splitters until it is empty.
-/

namespace DrawnModels

namespace Refinement

variable {d : Dfa} {splitter x : Block} {todo : List String} {r : Refinement}

/-- While a list of blocks is cut by `x`, these blocks are classes, and all other classes are
uniform already. -/
structure Splitting (d : Dfa) (splitter : Block) (todo : List String) (x : Block)
    (blocks : List Block) (r : Refinement) : Prop where
  sound : Sound d r
  accounted : Accounted d splitter todo r
  nodup : blocks.Nodup
  mem : ∀ b ∈ blocks, b ∈ r.partition.classes
  uniform : ∀ c ∈ r.partition.classes, Uniform x c ∨ c ∈ blocks

theorem Splitting.step {b : Block} {rest : List Block} (hx : Saturated d x)
    (h : Splitting d splitter todo x (b :: rest) r) :
    ∃ s, splitBlock x r b = .ok s ∧ Splitting d splitter todo x rest s := by
  obtain ⟨hbrest, hrest⟩ := List.nodup_cons.mp h.nodup
  obtain ⟨hb, hmem⟩ := List.forall_mem_cons.mp h.mem
  rcases splitBlock_cases hb x with ⟨hu, hs⟩ | ⟨hin, hout, hs⟩
  · refine ⟨r, hs, h.sound, h.accounted, hrest, hmem, fun c hc => ?_⟩
    rcases h.uniform c hc with hcu | hcb
    · exact Or.inl hcu
    · rcases List.mem_cons.mp hcb with rfl | hcb
      · exact Or.inl hu
      · exact Or.inr hcb
  · refine ⟨r.cut x b, hs, h.sound.cut hb hx hin hout, h.accounted.cut h.sound hb, hrest,
      fun c hc => ?_, fun c hc => ?_⟩
    · exact h.sound.mem_cut_of_ne (hmem c hc) (fun e => hbrest (e ▸ hc))
    · rcases h.sound.mem_cut hc with ⟨hc, hne⟩ | rfl | rfl
      · exact (h.uniform c hc).imp_right fun hcb => (List.mem_cons.mp hcb).resolve_left hne
      · exact Or.inl (uniform_inter x b)
      · exact Or.inl (uniform_diff x b)

/-- Once all classes are uniform with respect to the states that move into the splitter on a symbol,
the splitter separates no states of one class on it. -/
theorem Accounted.of_uniform {a : String} (h : Accounted d splitter (a :: todo) r)
    (hr : Sound d r) (hu : ∀ c ∈ r.partition.classes, Uniform (predecessors d a splitter) c) :
    Accounted d splitter todo r := by
  intro b hb p hp q hq e he c hc hsep
  rcases h b hb p hp q hq e he c hc hsep with hw | ⟨hmem, hs⟩
  · exact Or.inl hw
  · rcases List.mem_cons.mp hmem with rfl | hmem
    · have hsize : ∀ q ∈ b, q < d.size := fun q hq =>
        List.mem_range.mp (hr.divides.mem_members hb hq)
      refine absurd ?_ hs
      rw [Bool.eq_iff_iff]
      rcases hu b hb with hall | hnone
      · simp [(mem_predecessors.mp (hall p hp)).2, (mem_predecessors.mp (hall q hq)).2]
      · have hp' := hnone p hp
        have hq' := hnone q hq
        rw [mem_predecessors] at hp' hq'
        simp_all
    · exact Or.inr ⟨hmem, hs⟩

theorem refineBy_ok {a : String} (hd : d.IsClosed) (hsat : Saturated d splitter)
    (ha : a ∈ d.alphabet) (hr : Sound d r) (h : Accounted d splitter (a :: todo) r) :
    ∃ s, refineBy d splitter r a = .ok s ∧ Sound d s ∧ Accounted d splitter todo s := by
  have hx : Saturated d (predecessors d a splitter) := hsat.predecessors hd ha
  have hstart : Splitting d splitter (a :: todo) (predecessors d a splitter)
      r.partition.classes r :=
    ⟨hr, h, hr.divides.nodup, fun _ hb => hb, fun _ hc => Or.inr hc⟩
  obtain ⟨s, hs, hend⟩ := foldlM_ok_of_step (fun _ _ _ hsplit => hsplit.step hx) hstart
  have hu : ∀ c ∈ s.partition.classes, Uniform (predecessors d a splitter) c := fun c hc =>
    (hend.uniform c hc).resolve_right List.not_mem_nil
  exact ⟨s, hs, hend.sound, hend.accounted.of_uniform hend.sound hu⟩

theorem refineWith_ok (hd : d.IsClosed) (hsat : Saturated d splitter) (hr : Sound d r)
    (h : Accounted d splitter d.alphabet r) :
    ∃ s, refineWith d splitter r = .ok s ∧ Sound d s ∧ Accounted d splitter [] s := by
  let P (symbols : List String) (r : Refinement) : Prop :=
    (∀ a ∈ symbols, a ∈ d.alphabet) ∧ Sound d r ∧ Accounted d splitter symbols r
  have hstep : ∀ a rest r, P (a :: rest) r → ∃ s, refineBy d splitter r a = .ok s ∧ P rest s := by
    rintro a rest r ⟨hmem, hr, h⟩
    obtain ⟨ha, hrest⟩ := List.forall_mem_cons.mp hmem
    obtain ⟨s, hs, hs', h'⟩ := refineBy_ok hd hsat ha hr h
    exact ⟨s, hs, hrest, hs', h'⟩
  obtain ⟨s, hs, -, hs', h'⟩ := foldlM_ok_of_step (P := P) hstep ⟨fun _ ha => ha, hr, h⟩
  exact ⟨s, hs, hs', h'⟩

/-- What holds whenever a splitter is to be taken from the stack. -/
structure Invariant (d : Dfa) (r : Refinement) : Prop where
  sound : Sound d r
  accounted : Accounted d .empty [] r

theorem Invariant.step {s : Block} {rest : List Block} (hd : d.IsClosed) (h : Invariant d r)
    (hw : r.waiting = s :: rest) : ∃ t, step? d r = some (.ok t) ∧ Invariant d t := by
  have hs : s ∈ r.partition.classes := h.sound.waiting_mem s (by simp [hw])
  have hsound : Sound d { r with waiting := rest } :=
    ⟨h.sound.divides, fun b hb => h.sound.waiting_mem b (by simp [hw, hb]), h.sound.accepting,
      h.sound.coarse⟩
  have hacc : Accounted d s d.alphabet { r with waiting := rest } := by
    intro b hb p hp q hq a ha c hc hsep
    rcases h.accounted b hb p hp q hq a ha c hc hsep with ⟨w, hww, hsw⟩ | ⟨hnil, -⟩
    · rw [hw] at hww
      rcases List.mem_cons.mp hww with rfl | hww
      · exact Or.inr ⟨ha, hsw⟩
      · exact Or.inl ⟨w, hww, hsw⟩
    · exact absurd hnil List.not_mem_nil
  obtain ⟨t, ht, htsound, htacc⟩ := refineWith_ok hd (h.sound.coarse s hs) hsound hacc
  refine ⟨t, by simp [step?, hw, ht], htsound, ?_⟩
  intro b hb p hp q hq a ha c hc hsep
  exact (htacc b hb p hp q hq a ha c hc hsep).imp_right fun hn => absurd hn.1 List.not_mem_nil

/-- If every splitter goes through and an invariant is kept, all of them are used up in the end. -/
theorem run_ok_of_step {P : Refinement → Prop}
    (step : ∀ r b rest, P r → r.waiting = b :: rest → ∃ s, step? d r = some (.ok s) ∧ P s)
    (h : P r) : ∃ s, run d r = .ok s.partition ∧ P s ∧ s.waiting = [] := by
  induction r using run.induct d with
  | case1 r hnone =>
    refine ⟨r, by rw [Refinement.run, hnone], h, ?_⟩
    cases hw : r.waiting with
    | nil => rfl
    | cons b rest => simp [step?, hw] at hnone
  | case2 r e herr =>
    cases hw : r.waiting with
    | nil => simp [step?, hw] at herr
    | cons b rest =>
      obtain ⟨t, ht, -⟩ := step r b rest h hw
      rw [ht] at herr
      cases herr
  | case3 r s hs ih =>
    have hP : P s := by
      cases hw : r.waiting with
      | nil => simp [step?, hw] at hs
      | cons b rest =>
        obtain ⟨t, ht, hP⟩ := step r b rest h hw
        rw [ht] at hs
        cases hs
        exact hP
    obtain ⟨t, ht, hend⟩ := ih hP
    exact ⟨t, by rw [Refinement.run, hs]; exact ht, hend⟩

theorem Invariant.run (hd : d.IsClosed) (h : Invariant d r) :
    ∃ s, run d r = .ok s.partition ∧ Invariant d s ∧ s.waiting = [] :=
  run_ok_of_step (fun _ _ _ h hw => h.step hd hw) h

theorem mem_start_classes {b : Block} :
    b ∈ (start d).partition.classes ↔ (∃ q, q ∈ b) ∧
      (b = (SortedSet.range d.size).filter d.isAccepting ∨
        b = (SortedSet.range d.size).filter fun q => !d.isAccepting q) := by
  rw [start, Partition.ofClasses, List.mem_filter, List.mem_pair, Bool.not_eq_true',
    SortedSet.isEmpty_eq_false_iff, and_comm]

theorem invariant_start (d : Dfa) : Invariant d (start d) := by
  have hmem : ∀ b ∈ (start d).partition.classes, ∀ q ∈ b, q < d.size := by
    intro b hb q hq
    rcases (mem_start_classes.mp hb).2 with rfl | rfl
    · simpa using (SortedSet.mem_filter.mp hq).1
    · simpa using (SortedSet.mem_filter.mp hq).1
  refine ⟨⟨⟨?_, ?_, ?_⟩, ?_, ?_, ?_⟩, ?_⟩
  · exact fun c hc => (mem_start_classes.mp hc).1
  · apply List.Pairwise.filter _
    simp +contextual
  · intro q
    refine ⟨fun ⟨c, hc, hq⟩ => List.mem_range.mpr (hmem c hc q hq), fun hq => ?_⟩
    have hq' : q < d.size := List.mem_range.mp hq
    cases hacc : d.isAccepting q with
    | true =>
      have hqb : q ∈ (SortedSet.range d.size).filter d.isAccepting := by simp [hq', hacc]
      exact ⟨_, mem_start_classes.mpr ⟨⟨q, hqb⟩, Or.inl rfl⟩, hqb⟩
    | false =>
      have hqb : q ∈ (SortedSet.range d.size).filter fun q => !d.isAccepting q := by
        simp [hq', hacc]
      exact ⟨_, mem_start_classes.mpr ⟨⟨q, hqb⟩, Or.inr rfl⟩, hqb⟩
  · exact fun b hb => List.mem_reverse.mp hb
  · intro b hb p hp q hq
    rcases (mem_start_classes.mp hb).2 with rfl | rfl <;> simp_all
  · intro b hb p hp q hq hpq
    have hacc := hpq.isAccepting_eq
    rcases (mem_start_classes.mp hb).2 with rfl | rfl <;> simp_all
  · exact fun b hb p hp q hq a ha c hc hsep => Or.inl ⟨c, List.mem_reverse.mpr hc, hsep⟩

/-- With nothing left to wait for, the classes are a congruence. -/
theorem Invariant.isCongruence (h : Invariant d r) (hw : r.waiting = []) :
    r.partition.IsCongruence d where
  accepting := h.sound.accepting
  moves b hb p hp q hq a ha c hc := by
    by_contra hsep
    rcases h.accounted b hb p hp q hq a ha c hc hsep with ⟨w, hmem, -⟩ | ⟨hmem, -⟩
    · rw [hw] at hmem
      cases hmem
    · cases hmem

/-- The answer of refinement, if it ends within a number of steps. -/
def runWithin (d : Dfa) : Nat → Refinement → Option (Except Defect (Partition Nat))
  | 0, _ => none
  | steps + 1, r =>
    match step? d r with
    | none => some (.ok r.partition)
    | some (.error e) => some (.error e)
    | some (.ok s) => runWithin d steps s

theorem run_eq_of_runWithin {d : Dfa} {steps : Nat} {r : Refinement}
    {e : Except Defect (Partition Nat)} (h : runWithin d steps r = some e) : run d r = e := by
  induction steps generalizing r with
  | zero => cases h
  | succ steps ih =>
    rw [runWithin] at h
    rw [run]
    split
    · rename_i hnone
      rw [hnone] at h
      exact Option.some.inj h
    · rename_i defect herror
      rw [herror] at h
      exact Option.some.inj h
    · rename_i s hok
      rw [hok] at h
      exact ih h

end Refinement

namespace Dfa

/-- The partition that refinement leaves is a congruence, and the coarsest one. -/
theorem languagePartition_ok {d : Dfa} (hd : d.IsClosed) :
    ∃ p, d.languagePartition = .ok p ∧ p.Divides (List.range d.size) ∧ p.IsCongruence d ∧
      ∀ c ∈ p.classes, ∀ q ∈ c, ∀ r < d.size, d.Indistinguishable q r → r ∈ c := by
  obtain ⟨s, hs, hinv, hw⟩ := (Refinement.invariant_start d).run hd
  refine ⟨s.partition, ?_, hinv.sound.divides, hinv.isCongruence hw, hinv.sound.coarse⟩
  simp [languagePartition, hs, Partition.coversExactly_iff.mpr hinv.sound.divides, bind, Except.bind]

end Dfa

namespace Graph

/-- The classes of an automaton that is read off a graph divide its states, and two states share a
class exactly if no word tells them apart. -/
theorem languagePartition_sameClass_iff {g : Graph} {c : Conventions} {d : Dfa}
    (h : g.toDfa c = .ok d) :
    ∃ p, d.languagePartition = .ok p ∧ p.Divides (List.range d.size) ∧
      ∀ q < d.size, ∀ r < d.size,
        (∃ b ∈ p.classes, q ∈ b ∧ r ∈ b) ↔ d.Indistinguishable q r := by
  have hd : d.IsClosed := isClosed_of_toDfa h
  obtain ⟨p, hp, hdiv, hcong, hcoarse⟩ := Dfa.languagePartition_ok hd
  refine ⟨p, hp, hdiv, fun q hq r hr => ⟨?_, fun hqr => ?_⟩⟩
  · rintro ⟨b, hb, hqb, hrb⟩
    exact hcong.indistinguishable hdiv hd hb hqb hrb
  · obtain ⟨b, hb, hqb⟩ := hdiv.exists_class (List.mem_range.mpr hq)
    exact ⟨b, hb, hqb, hcoarse b hb q hqb r hr hqr⟩

theorem languagePartition_twoSinks :
    ∃ d, twoSinks.toDfa {} = .ok d ∧ d.Indistinguishable 1 2 ∧ ¬ d.Indistinguishable 0 3 := by
  let d : Dfa := {
    states := [⟨"A", false, .ofList [("0", 1), ("1", 2)]⟩,
      ⟨"B", true, .ofList [("0", 1), ("1", 1)]⟩, ⟨"C", true, .ofList [("0", 2), ("1", 2)]⟩, ⟨"D", false, .empty⟩]
    alphabet := ["0", "1"]
    initial := 0 }
  have hd : twoSinks.toDfa {} = .ok d := by decide +kernel
  have hrun : Refinement.run d (.start d) = .ok ⟨[.ofList [1, 2], .ofList [0], .ofList [3]]⟩ :=
    Refinement.run_eq_of_runWithin (by decide +kernel : Refinement.runWithin d 8 _ = _)
  have hclasses : d.languagePartition = .ok ⟨[.ofList [1, 2], .ofList [0], .ofList [3]]⟩ := by
    rw [Dfa.languagePartition, hrun]
    decide +kernel
  obtain ⟨p, hp, -, hiff⟩ := languagePartition_sameClass_iff hd
  cases hclasses.symm.trans hp
  exact ⟨d, hd, (hiff 1 (by decide) 2 (by decide)).mp (by decide),
    fun h03 => absurd ((hiff 0 (by decide) 3 (by decide)).mpr h03) (by decide)⟩

end Graph

end DrawnModels
