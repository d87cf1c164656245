import DrawnModels.Proofs.Automaton.LanguageClasses

/-!
# Counting splitters

A split puts two classes in the place of one and makes one block more wait, whether it waited itself
or not. Taking a splitter makes one block less wait. So at any time there are as many classes as
there are blocks waiting and splitters taken. What waits are classes, none of them twice, and what is
split is a class when its turn comes: the blocks of a round are the classes that were there when it
began, and a split takes away no other class. In the end nothing waits, and each class stands for one
splitter.
-/

namespace DrawnModels

namespace Refinement

variable {d : Dfa} {r s t : Refinement} {x b : Block} {taken : Nat}

/-! ### The stack -/

section

variable {waiting : List Block} {inside outside : Block}

theorem length_requeue (h : waiting.Nodup) :
    (requeue waiting b inside outside).length = waiting.length + 1 := by
  unfold requeue
  split
  · rename_i hb
    have herase : waiting.filter (· ≠ b) = waiting.erase b := by
      rw [h.erase_eq_filter]
      exact List.filter_congr fun c _ => by by_cases hc : c = b <;> simp [hc]
    rw [List.length_cons, List.length_cons, herase, List.length_erase_add_one hb]
  · split <;> rfl

theorem nodup_requeue (h : waiting.Nodup) (hinside : inside ∉ waiting) (houtside : outside ∉ waiting)
    (hne : inside ≠ outside) : (requeue waiting b inside outside).Nodup := by
  unfold requeue
  split
  · refine List.nodup_cons.mpr ⟨?_, List.nodup_cons.mpr ⟨?_, h.filter _⟩⟩
    · simp [hne.symm, houtside]
    · simp [hinside]
  · split
    · exact List.nodup_cons.mpr ⟨hinside, h⟩
    · exact List.nodup_cons.mpr ⟨houtside, h⟩

end

/-! ### One splitter -/

/-- The classes divide the states, every block that waits is a class and waits once, and there are as
many classes as blocks that wait and splitters taken. -/
structure Tallied (d : Dfa) (taken : Nat) (r : Refinement) : Prop where
  divides : r.partition.Divides (List.range d.size)
  waiting_mem : ∀ b ∈ r.waiting, b ∈ r.partition.classes
  waiting_nodup : r.waiting.Nodup
  size_eq : r.partition.size = r.waiting.length + taken

/-- While the blocks of a round are split, those that are still to come are classes. -/
structure Midway (d : Dfa) (taken : Nat) (blocks : List Block) (r : Refinement) : Prop
    extends Tallied d taken r where
  nodup : blocks.Nodup
  mem : ∀ b ∈ blocks, b ∈ r.partition.classes

theorem tallied_start (d : Dfa) : Tallied d 0 (start d) where
  divides := (invariant_start d).sound.divides
  waiting_mem := (invariant_start d).sound.waiting_mem
  waiting_nodup := List.nodup_reverse.mpr (invariant_start d).sound.divides.nodup
  size_eq := by simp [start, Partition.size]

theorem Tallied.cut (h : Tallied d taken r) (hb : b ∈ r.partition.classes)
    (hin : ∃ q, q ∈ b.inter x) (hout : ∃ q, q ∈ b.diff x) : Tallied d taken (r.cut x b) where
  divides := h.divides.split (Partition.split_inter_diff hb x) hin hout
  waiting_mem _ hc := mem_classes_cut_of_mem_waiting h.divides.nodup h.waiting_mem hc
  waiting_nodup := by
    obtain ⟨p, hp⟩ := hin
    obtain ⟨q, hq⟩ := hout
    obtain ⟨hpb, hpx⟩ := SortedSet.mem_inter.mp hp
    obtain ⟨hqb, hqx⟩ := SortedSet.mem_diff.mp hq
    -- A half that waits is a class, and then the whole block, since they share a state.
    have hinside : b.inter x ∉ r.waiting := fun hw => by
      have heq : b.inter x = b := h.divides.eq_of_mem (h.waiting_mem _ hw) hb hp hpb
      exact hqx (SortedSet.mem_inter.mp (heq ▸ hqb)).2
    have houtside : b.diff x ∉ r.waiting := fun hw => by
      have heq : b.diff x = b := h.divides.eq_of_mem (h.waiting_mem _ hw) hb hq hqb
      exact (SortedSet.mem_diff.mp (heq ▸ hpb)).2 hpx
    have hne : b.inter x ≠ b.diff x := fun heq => (SortedSet.mem_diff.mp (heq ▸ hp)).2 hpx
    exact nodup_requeue h.waiting_nodup hinside houtside hne
  size_eq := by
    have hsize : (r.cut x b).partition.size = r.partition.size + 1 := by
      simp [Refinement.cut, Partition.size, ← List.length_erase_add_one hb]
    have hlength : (r.cut x b).waiting.length = r.waiting.length + 1 :=
      length_requeue h.waiting_nodup
    rw [hsize, hlength, h.size_eq, Nat.add_right_comm]

theorem Midway.step {rest : List Block} (h : Midway d taken (b :: rest) r) :
    ∃ s, splitBlock x r b = .ok s ∧ Midway d taken rest s := by
  obtain ⟨hbrest, hrest⟩ := List.nodup_cons.mp h.nodup
  obtain ⟨hb, hmem⟩ := List.forall_mem_cons.mp h.mem
  rcases splitBlock_cases hb x with ⟨-, hs⟩ | ⟨hin, hout, hs⟩
  · exact ⟨r, hs, h.toTallied, hrest, hmem⟩
  · refine ⟨r.cut x b, hs, h.toTallied.cut hb hin hout, hrest, fun c hc => ?_⟩
    exact (mem_classes_cut_iff h.divides.nodup).mpr
      (Or.inl ⟨hmem c hc, fun e => hbrest (e ▸ hc)⟩)

/-- The blocks in front go through, and then the others are still classes. -/
theorem Tallied.foldlM_splitBlock (h : Tallied d taken r) (x : Block) {done todo : List Block}
    (hclasses : r.partition.classes = done ++ todo) :
    ∃ s, done.foldlM (splitBlock x) r = .ok s ∧ Midway d taken todo s := by
  have hmidway : Midway d taken (done ++ todo) r :=
    ⟨h, hclasses ▸ h.divides.nodup, fun b hb => hclasses ▸ hb⟩
  exact foldlM_front_ok_of_step (fun _ _ _ h => h.step) hmidway

theorem Tallied.foldlM_refineBy (h : Tallied d taken r) (splitter : Block)
    (symbols : List String) :
    ∃ s, symbols.foldlM (refineBy d splitter) r = .ok s ∧ Tallied d taken s := by
  refine foldlM_ok_of_step (P := fun _ r => Tallied d taken r) (fun a _ r h => ?_) h
  obtain ⟨s, hs, hend⟩ := h.foldlM_splitBlock (predecessors d a splitter)
    (List.append_nil r.partition.classes).symm
  exact ⟨s, hs, hend.toTallied⟩

theorem Tallied.take (h : Tallied d taken r) {splitter : Block} {rest : List Block}
    (hw : r.waiting = splitter :: rest) : Tallied d (taken + 1) { r with waiting := rest } where
  divides := h.divides
  waiting_mem b hb := h.waiting_mem b (hw ▸ List.mem_cons_of_mem splitter hb)
  waiting_nodup := (List.nodup_cons.mp (hw ▸ h.waiting_nodup)).2
  size_eq := by
    show r.partition.size = rest.length + (taken + 1)
    rw [h.size_eq, hw, List.length_cons, Nat.add_right_comm, Nat.add_assoc]

theorem Tallied.step (h : Tallied d taken r) {splitter : Block} {rest : List Block}
    (hw : r.waiting = splitter :: rest) :
    ∃ s, step? d r = some (.ok s) ∧ Tallied d (taken + 1) s := by
  obtain ⟨s, hs, hend⟩ := (h.take hw).foldlM_refineBy splitter d.alphabet
  exact ⟨s, by rw [step?, hw]; exact congrArg some hs, hend⟩

/-- In the round that begins with `r`, after some symbols and some of the blocks, the refinement `t`
is to split the block `b` into two inhabited halves. -/
inductive AsksToSplit (d : Dfa) (r : Refinement) : Refinement → Block → Block → Block → Prop
  | intro {splitter b : Block} {rest done todo : List Block} {a : String}
      {earlier later : List String} {s t : Refinement} (hwaiting : r.waiting = splitter :: rest)
      (halphabet : d.alphabet = earlier ++ a :: later)
      (hearlier : earlier.foldlM (refineBy d splitter) { r with waiting := rest } = .ok s)
      (hclasses : s.partition.classes = done ++ b :: todo)
      (hdone : done.foldlM (splitBlock (predecessors d a splitter)) s = .ok t)
      (hinside : (b.inter (predecessors d a splitter)).isEmpty = false)
      (houtside : (b.diff (predecessors d a splitter)).isEmpty = false) :
      AsksToSplit d r t b (b.inter (predecessors d a splitter)) (b.diff (predecessors d a splitter))

/-- Whatever is to be split is there and can be split. -/
theorem Tallied.exists_split (h : Tallied d taken r) {inside outside : Block}
    (hasks : AsksToSplit d r t b inside outside) :
    ∃ p, t.partition.split b inside outside = .done p := by
  cases hasks with
  | @intro splitter _ rest done todo a earlier _ s _ hwaiting _ hearlier hclasses hdone _ _ =>
    obtain ⟨s', hs', htallied⟩ := (h.take hwaiting).foldlM_refineBy splitter earlier
    cases hearlier.symm.trans hs'
    obtain ⟨t', ht', hmidway⟩ := htallied.foldlM_splitBlock (predecessors d a splitter) hclasses
    cases hdone.symm.trans ht'
    exact ⟨_, Partition.split_inter_diff (hmidway.mem b List.mem_cons_self) _⟩

/-! ### All splitters -/

/-- The refinement after a number of splitters, unless the stack runs empty before. -/
def after? (d : Dfa) : Nat → Option Refinement
  | 0 => some (start d)
  | taken + 1 =>
    match (after? d taken).bind (step? d) with
    | some (.ok s) => some s
    | _ => none

theorem after?_succ (hr : after? d taken = some r) (hs : step? d r = some (.ok s)) :
    after? d (taken + 1) = some s := by
  simp [after?, hr, hs]

theorem exists_of_after?_succ (h : after? d (taken + 1) = some s) :
    ∃ r, after? d taken = some r ∧ step? d r = some (.ok s) := by
  rw [after?] at h
  split at h
  · rename_i s' hs
    cases h
    exact Option.bind_eq_some_iff.mp hs
  · cases h

theorem tallied_of_after? (h : after? d taken = some r) : Tallied d taken r := by
  induction taken generalizing r with
  | zero =>
    cases h
    exact tallied_start d
  | succ taken ih =>
    obtain ⟨q, hq, hstep⟩ := exists_of_after?_succ h
    cases hw : q.waiting with
    | nil => simp [step?, hw] at hstep
    | cons splitter rest =>
      obtain ⟨s, hs, htallied⟩ := (ih hq).step hw
      cases hstep.symm.trans hs
      exact htallied

theorem exists_after?_of_le (h : after? d taken = some r) {n : Nat} (hn : n ≤ taken) :
    ∃ s, after? d n = some s := by
  induction taken generalizing r with
  | zero =>
    rw [Nat.le_zero.mp hn]
    exact ⟨r, h⟩
  | succ taken ih =>
    rcases Nat.le_succ_iff.mp hn with hn | rfl
    · obtain ⟨q, hq, -⟩ := exists_of_after?_succ h
      exact ih hq hn
    · exact ⟨r, h⟩

theorem exists_after?_iff (h : after? d taken = some r) (hw : r.waiting = []) {n : Nat} :
    (∃ s, after? d n = some s) ↔ n ≤ taken := by
  constructor
  · rintro ⟨s, hs⟩
    by_contra hlt
    obtain ⟨t, ht⟩ := exists_after?_of_le hs (Nat.not_le.mp hlt)
    obtain ⟨q, hq, hstep⟩ := exists_of_after?_succ ht
    cases h.symm.trans hq
    simp [step?, hw] at hstep
  · exact exists_after?_of_le h

theorem exists_after?_run (d : Dfa) :
    ∃ taken r, after? d taken = some r ∧ r.waiting = [] ∧ run d (start d) = .ok r.partition := by
  have hstep : ∀ r b rest, (∃ taken, after? d taken = some r) → r.waiting = b :: rest →
      ∃ s, step? d r = some (.ok s) ∧ ∃ taken, after? d taken = some s := by
    rintro r b rest ⟨taken, hr⟩ hw
    obtain ⟨s, hs, -⟩ := (tallied_of_after? hr).step hw
    exact ⟨s, hs, taken + 1, after?_succ hr hs⟩
  obtain ⟨r, hrun, ⟨taken, hr⟩, hw⟩ := run_ok_of_step hstep ⟨0, rfl⟩
  exact ⟨taken, r, hr, hw, hrun⟩

end Refinement

namespace Dfa

/-- Refinement takes exactly as many splitters as it leaves classes, and there are no more classes
than states. Before each splitter and after the last one the classes divide the states, classes wait
and none of them twice, and the classes that do not wait are as many as the splitters taken. Whatever
is to be split in between is there and is split. -/
theorem languagePartition_takes_size (d : Dfa) :
    ∃ p, d.languagePartition = .ok p ∧ p.size ≤ d.size ∧
      (∀ taken, (∃ r, Refinement.after? d taken = some r) ↔ taken ≤ p.size) ∧
      ∀ taken r, Refinement.after? d taken = some r →
        Refinement.Tallied d taken r ∧ (r.waiting = [] ↔ taken = p.size) ∧
          (r.waiting = [] → r.partition = p) ∧
          ∀ t b inside outside, Refinement.AsksToSplit d r t b inside outside →
            ∃ q, t.partition.split b inside outside = .done q := by
  obtain ⟨last, s, hs, hnil, hrun⟩ := Refinement.exists_after?_run d
  have htallied : Refinement.Tallied d last s := Refinement.tallied_of_after? hs
  have hlast : last = s.partition.size := by rw [htallied.size_eq, hnil, List.length_nil, Nat.zero_add]
  subst hlast
  have hpartition : d.languagePartition = .ok s.partition := by
    simp [languagePartition, hrun, Partition.coversExactly_iff.mpr htallied.divides, bind, Except.bind]
  have hsize : s.partition.size ≤ d.size := by simpa using htallied.divides.size_le
  refine ⟨s.partition, hpartition, hsize, fun taken => Refinement.exists_after?_iff hs hnil,
    fun taken r hr => ?_⟩
  have hend : r.waiting = [] ↔ taken = s.partition.size := by
    constructor
    · intro hw
      apply Nat.le_antisymm
      · exact (Refinement.exists_after?_iff hs hnil).mp ⟨r, hr⟩
      · exact (Refinement.exists_after?_iff hr hw).mp ⟨s, hs⟩
    · rintro rfl
      cases hs.symm.trans hr
      exact hnil
  refine ⟨Refinement.tallied_of_after? hr, hend, fun hw => ?_, fun t b inside outside hasks => ?_⟩
  · obtain rfl := hend.mp hw
    cases hs.symm.trans hr
    rfl
  · exact (Refinement.tallied_of_after? hr).exists_split hasks

/-- Three states in a row, of which the last accepts and is not left. -/
def threeInARow : Dfa where
  states := [⟨"A", false, .ofList [("a", 1)]⟩, ⟨"B", false, .ofList [("a", 2)]⟩,
    ⟨"C", true, .ofList [("a", 2)]⟩]
  alphabet := ["a"]
  initial := 0

/-- The first splitter, `A` and `B`, asks to split itself, because only `A` moves into it. After three
splitters nothing waits, so there are three classes. -/
theorem languagePartition_takes_three :
    (∃ t q, Refinement.AsksToSplit threeInARow (.start threeInARow) t (.ofList [0, 1]) (.ofList [0])
      (.ofList [1]) ∧ t.partition.split (.ofList [0, 1]) (.ofList [0]) (.ofList [1]) = .done q) ∧
      ∃ p, threeInARow.languagePartition = .ok p ∧ p.size = 3 := by
  obtain ⟨p, hp, -, -, hall⟩ := languagePartition_takes_size threeInARow
  have hwaiting : (Refinement.start threeInARow).waiting = [.ofList [0, 1], .ofList [2]] := by
    decide +kernel
  have hclasses : (Refinement.start threeInARow).partition.classes =
      [.ofList [2]] ++ .ofList [0, 1] :: [] := by
    decide +kernel
  have hinside : (SortedSet.ofList [0, 1]).inter
      (Refinement.predecessors threeInARow "a" (.ofList [0, 1])) = .ofList [0] := by
    decide +kernel
  have houtside : (SortedSet.ofList [0, 1]).diff
      (Refinement.predecessors threeInARow "a" (.ofList [0, 1])) = .ofList [1] := by
    decide +kernel
  have hasks : Refinement.AsksToSplit threeInARow (.start threeInARow)
      ⟨(Refinement.start threeInARow).partition, [.ofList [2]]⟩ (.ofList [0, 1]) (.ofList [0])
      (.ofList [1]) := by
    rw [← hinside, ← houtside]
    exact .intro hwaiting (show threeInARow.alphabet = [] ++ "a" :: [] from rfl) rfl hclasses
      (by decide +kernel) (by decide +kernel) (by decide +kernel)
  have hend : Refinement.after? threeInARow 3 =
      some ⟨⟨[.ofList [2], .ofList [0], .ofList [1]]⟩, []⟩ := by
    decide +kernel
  obtain ⟨q, hq⟩ := (hall 0 _ rfl).2.2.2 _ _ _ _ hasks
  exact ⟨⟨_, q, hasks, hq⟩, p, hp, ((hall 3 _ hend).2.1.mp rfl).symm⟩

end Dfa

end DrawnModels
