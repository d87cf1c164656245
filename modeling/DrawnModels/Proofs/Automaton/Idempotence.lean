import DrawnModels.Proofs.Automaton.Quotients
import Mathlib.Data.Finset.Card
import Mathlib.Order.Interval.Finset.Nat

/-!
# Minimizing twice

The minimal automaton is well formed again, and words tell all its states apart, since they tell the
states apart that were merged into them. So nothing is left to merge when it is minimized in turn:
its states get other numbers and names, and that is all.
-/

namespace DrawnModels

namespace Dfa

variable {d e : Dfa}

/-- The states of two automata correspond to each other, and corresponding states do the same. -/
structure IsIsomorphism (d e : Dfa) (f : Nat → Nat) : Prop where
  bijOn : Set.BijOn f (Set.Iio d.size) (Set.Iio e.size)
  alphabet : e.alphabet = d.alphabet
  initial : e.initial = f d.initial
  isAccepting : ∀ q < d.size, e.isAccepting (f q) = d.isAccepting q
  successor? : ∀ q < d.size, ∀ a, e.successor? (f q) a = (d.successor? q a).map f

/-- Any two states are told apart by a word. -/
def IsReduced (d : Dfa) : Prop :=
  ∀ q < d.size, ∀ r < d.size, d.Indistinguishable q r → q = r

@[simp] theorem classState_name (d : Dfa) (t : MoveTable Nat) (i : Nat) (c : Block) :
    (d.classState t i c).name = "q" ++ toString i := rfl

theorem names_of_quotient {p : Partition Nat} {m : Minimized} (h : d.quotient p = .ok m) :
    m.automaton.names = (List.range p.size).map fun i => "q" ++ toString i := by
  obtain ⟨t, -, h⟩ := bind_eq_ok_iff.mp h
  obtain ⟨initial, -, h⟩ := bind_eq_ok_iff.mp h
  cases h
  apply List.ext_getElem?
  intro i
  by_cases hi : i < p.classes.length <;> simp [names, Partition.size, hi]

theorem nodup_classNames (n : Nat) : ((List.range n).map fun i => "q" ++ toString i).Nodup := by
  apply List.nodup_range.map
  intro i j hij
  have hrepr : i.repr = j.repr := (String.append_right_inj "q").mp hij
  rw [Nat.repr_eq_ofList_toDigits, Nat.repr_eq_ofList_toDigits, String.ofList_inj] at hrepr
  rw [← Nat.ofDigitChars_toDigits (n := i) (by decide : 1 < 10) (by decide), hrepr,
    Nat.ofDigitChars_toDigits (by decide) (by decide)]

theorem nodup_names_of_minimize {m : Minimized} (h : d.minimize = .ok m) :
    m.automaton.names.Nodup := by
  obtain ⟨p, -, h⟩ := bind_eq_ok_iff.mp h
  rw [names_of_quotient h]
  exact nodup_classNames p.size

end Dfa

namespace Minimized.IsQuotientOf

variable {m : Minimized} {d : Dfa} {block : Nat → Nat}

theorem exists_of_successor? (h : m.IsQuotientOf d block) {i j : Nat} {a : String}
    (hj : m.automaton.successor? i a = some j) :
    ∃ q < d.size, ∃ r, d.successor? q a = some r ∧ block q = i ∧ block r = j := by
  obtain ⟨q, hq, rfl⟩ := h.surjective i (Dfa.lt_size_of_successor? hj)
  rw [h.successor? q hq] at hj
  obtain ⟨r, hr, rfl⟩ := Option.map_eq_some_iff.mp hj
  exact ⟨q, hq, r, hr, rfl, rfl⟩

theorem isCompleteAt (h : m.IsQuotientOf d block) {q : Nat} (hq : q < d.size)
    (hc : d.IsCompleteAt q) : m.automaton.IsCompleteAt (block q) := by
  intro a ha
  obtain ⟨r, hr⟩ := hc a (h.alphabet ▸ ha)
  exact ⟨block r, by rw [h.successor? q hq, hr, Option.map_some]⟩

theorem isWellFormed (h : m.IsQuotientOf d block) (hd : d.IsWellFormed)
    (hnames : m.automaton.names.Nodup) : m.automaton.IsWellFormed where
  isClosed i a j hj := by
    obtain ⟨q, -, r, hr, -, rfl⟩ := h.exists_of_successor? hj
    exact h.block_lt r (hd.isClosed q a r hr)
  mem_alphabet i a j hj := by
    obtain ⟨q, -, r, hr, -, -⟩ := h.exists_of_successor? hj
    exact h.alphabet ▸ hd.mem_alphabet q a r hr
  nodup_names := hnames
  initial_lt := h.initial ▸ h.block_lt d.initial hd.initial_lt
  isCompleteAt i a j hj := by
    obtain ⟨q, hq, r, hr, rfl, rfl⟩ := h.exists_of_successor? hj
    obtain ⟨hfrom, hto⟩ := hd.isCompleteAt q a r hr
    exact ⟨h.isCompleteAt hq hfrom, h.isCompleteAt (hd.isClosed q a r hr) hto⟩

theorem isSome_run? (h : m.IsQuotientOf d block) (hd : d.IsClosed) {q : Nat} (hq : q < d.size)
    (word : List String) :
    (m.automaton.run? (block q) word).isSome = (d.run? q word).isSome := by
  rw [h.run? hd hq, Option.isSome_map]

theorem any_run? (h : m.IsQuotientOf d block) (hd : d.IsClosed) {q : Nat} (hq : q < d.size)
    (word : List String) :
    (m.automaton.run? (block q) word).any m.automaton.isAccepting =
      (d.run? q word).any d.isAccepting := by
  rw [h.run? hd hq]
  cases hr : d.run? q word with
  | none => rfl
  | some r => exact h.isAccepting r (hd.run?_lt hq hr)

/-- What a word tells about merged states it tells about the states that were merged. -/
theorem indistinguishable_iff (h : m.IsQuotientOf d block) (hd : d.IsClosed) {q r : Nat}
    (hq : q < d.size) (hr : r < d.size) :
    m.automaton.Indistinguishable (block q) (block r) ↔ d.Indistinguishable q r := by
  simp only [Dfa.Indistinguishable, h.alphabet, h.isSome_run? hd hq, h.isSome_run? hd hr,
    h.any_run? hd hq, h.any_run? hd hr]

end Minimized.IsQuotientOf

namespace Minimized.IsMinimizationOf

variable {m : Minimized} {d : Dfa} {block : Nat → Nat}

theorem isReduced (h : m.IsMinimizationOf d block) (hd : d.IsClosed) : m.automaton.IsReduced := by
  intro i hi j hj hij
  obtain ⟨q, hq, rfl⟩ := h.surjective i hi
  obtain ⟨r, hr, rfl⟩ := h.surjective j hj
  exact (h.block_eq_iff q hq r hr).mpr ((h.indistinguishable_iff hd hq hr).mp hij)

/-- Nothing is merged where words tell all states apart. -/
theorem bijOn (h : m.IsMinimizationOf d block) (hd : d.IsReduced) :
    Set.BijOn block (Set.Iio d.size) (Set.Iio m.size) where
  left := h.block_lt
  right := by
    refine ⟨fun q hq r hr hqr => ?_, fun i hi => ?_⟩
    · exact hd q hq r hr ((h.block_eq_iff q hq r hr).mp hqr)
    · exact h.surjective i hi

end Minimized.IsMinimizationOf

/-- A minimization that merges no two states: the automaton is kept up to the numbers and names of
its states, and every class has one name. -/
structure Minimized.IsRenumberingOf (m : Minimized) (d : Dfa) (block : Nat → Nat) : Prop where
  size_eq : m.size = d.size
  isIsomorphism : d.IsIsomorphism m.automaton block
  blockOf? : ∀ q < d.size, (d.name? q).bind m.blockOf? = some (block q)
  length_classes : m.classes.length = m.size
  class_eq : ∀ s ∈ m.classes, ∃ q name, d.name? q = some name ∧ ∀ other, other ∈ s ↔ other = name

namespace Minimized.IsMinimizationOf

variable {m : Minimized} {d : Dfa} {block : Nat → Nat}

theorem isIsomorphism (h : m.IsMinimizationOf d block) (hd : d.IsReduced) :
    d.IsIsomorphism m.automaton block :=
  ⟨h.bijOn hd, h.alphabet, h.initial, h.isAccepting, h.successor?⟩

theorem size_eq (h : m.IsMinimizationOf d block) (hd : d.IsReduced) : m.size = d.size := by
  obtain ⟨hmaps, hinj, hsurj⟩ := h.bijOn hd
  rw [← Finset.coe_range, ← Finset.coe_range] at hmaps hsurj
  rw [← Finset.coe_range] at hinj
  simpa using (Finset.card_nbij block hmaps hinj hsurj).symm

theorem isRenumberingOf (h : m.IsMinimizationOf d block) (hd : d.IsReduced) :
    m.IsRenumberingOf d block where
  size_eq := h.size_eq hd
  isIsomorphism := h.isIsomorphism hd
  blockOf? := h.blockOf?
  length_classes := h.length_classes
  class_eq s hs := by
    obtain ⟨q, hq, hnames⟩ := h.mem_classes_iff.mp hs
    obtain ⟨name, hname⟩ := Dfa.exists_name? hq
    refine ⟨q, name, hname, fun other => (hnames other).trans ⟨?_, ?_⟩⟩
    · rintro ⟨r, hr, hqr⟩
      rw [← hd q hq r (Dfa.lt_size_of_name? hr) hqr, hname] at hr
      exact (Option.some.inj hr).symm
    · rintro rfl
      exact ⟨q, hname, fun _ _ => ⟨rfl, rfl⟩⟩

end Minimized.IsMinimizationOf

namespace Dfa

/-- What minimization leaves is well formed, and words tell all its states apart. -/
theorem isWellFormed_of_minimize {d : Dfa} {m : Minimized} (hd : d.IsWellFormed)
    (hm : d.minimize = .ok m) : m.automaton.IsWellFormed ∧ m.automaton.IsReduced := by
  obtain ⟨m', block, hm', hmin⟩ := exists_isMinimizationOf hd
  cases hm.symm.trans hm'
  exact ⟨hmin.isWellFormed hd (nodup_names_of_minimize hm), hmin.isReduced hd.isClosed⟩

end Dfa

namespace Graph

/-- Minimizing the minimal automaton only renumbers it. -/
theorem minimize_minimize_isRenumberingOf {g : Graph} {c : Conventions} {d : Dfa}
    (h : g.toDfa c = .ok d) :
    ∃ m t block, d.minimize = .ok m ∧ m.automaton.minimize = .ok t ∧
      t.IsRenumberingOf m.automaton block := by
  have hd : d.IsWellFormed := isWellFormed_of_toDfa h
  obtain ⟨m, -, hm, -⟩ := Dfa.exists_isMinimizationOf hd
  obtain ⟨hwell, hreduced⟩ := Dfa.isWellFormed_of_minimize hd hm
  obtain ⟨t, block, ht, hmin⟩ := Dfa.exists_isMinimizationOf hwell
  exact ⟨m, t, block, hm, ht, hmin.isRenumberingOf hreduced⟩

theorem minimize_minimize_twoSinks :
    ∃ d m t block, twoSinks.toDfa {} = .ok d ∧ d.minimize = .ok m ∧
      m.automaton.minimize = .ok t ∧ t.IsRenumberingOf m.automaton block := by
  obtain ⟨d, hd⟩ := exists_eq_ok_of_isOk (by decide +kernel : (twoSinks.toDfa {}).isOk = true)
  obtain ⟨m, t, block, hm, ht, hren⟩ := minimize_minimize_isRenumberingOf hd
  exact ⟨d, m, t, block, hd, hm, ht, hren⟩

end Graph

end DrawnModels
