import DrawnModels.Proofs.Automaton.Quotients

/-!
# Automata with the same states in another order

The states of two automata are compared by their names. If the states of the one do what the states
of the other with the same names do, both accept the same words and tell the same states apart, and
minimization merges the same names.
-/

namespace DrawnModels

namespace Dfa

variable {a b : Dfa} {q r : Nat}

/-- States of two automata that have the same name. -/
def SameName (a b : Dfa) (q r : Nat) : Prop :=
  ∃ name, a.name? q = some name ∧ b.name? r = some name

theorem SameName.symm (h : SameName a b q r) : SameName b a r q := by
  obtain ⟨name, hq, hr⟩ := h
  exact ⟨name, hr, hq⟩

/-- What a state of the first automaton does, the state of the second with the same name does. -/
structure FollowedBy (a b : Dfa) : Prop where
  exists_name? : ∀ q name, a.name? q = some name → ∃ r, b.name? r = some name
  mem_alphabet : ∀ symbol ∈ a.alphabet, symbol ∈ b.alphabet
  initial : SameName a b a.initial b.initial
  isAccepting : ∀ q r, SameName a b q r → a.isAccepting q = true → b.isAccepting r = true
  successor? : ∀ q r, SameName a b q r → ∀ symbol q', a.successor? q symbol = some q' →
    ∃ r', b.successor? r symbol = some r' ∧ SameName a b q' r'

namespace FollowedBy

theorem run? (h : a.FollowedBy b) (hqr : SameName a b q r) {word : List String} {q' : Nat}
    (hq : a.run? q word = some q') : ∃ r', b.run? r word = some r' ∧ SameName a b q' r' := by
  induction word generalizing q r with
  | nil =>
    cases hq
    exact ⟨r, rfl, hqr⟩
  | cons symbol word ih =>
    obtain ⟨q₁, hq₁, hq⟩ := Option.bind_eq_some_iff.mp hq
    obtain ⟨r₁, hr₁, hqr₁⟩ := h.successor? q r hqr symbol q₁ hq₁
    obtain ⟨r', hr', hqr'⟩ := ih hqr₁ hq
    exact ⟨r', by rw [Dfa.run?, hr₁, Option.bind_some, hr'], hqr'⟩

theorem isSome_run? (h : a.FollowedBy b) (hqr : SameName a b q r) {word : List String}
    (hq : (a.run? q word).isSome = true) : (b.run? r word).isSome = true := by
  obtain ⟨q', hq'⟩ := Option.isSome_iff_exists.mp hq
  obtain ⟨r', hr', -⟩ := h.run? hqr hq'
  exact Option.isSome_iff_exists.mpr ⟨r', hr'⟩

theorem any_run? (h : a.FollowedBy b) (hqr : SameName a b q r) {word : List String}
    (hq : (a.run? q word).any a.isAccepting = true) : (b.run? r word).any b.isAccepting = true := by
  rw [Option.any_eq_true] at hq ⊢
  obtain ⟨q', hq', haccepting⟩ := hq
  obtain ⟨r', hr', hqr'⟩ := h.run? hqr hq'
  exact ⟨r', hr', h.isAccepting q' r' hqr' haccepting⟩

end FollowedBy

/-- States of two automata that do the same under the same names, in both directions. -/
structure Renumbers (a b : Dfa) : Prop where
  followedBy : a.FollowedBy b
  followedBy_symm : b.FollowedBy a

namespace Renumbers

theorem symm (h : a.Renumbers b) : b.Renumbers a :=
  ⟨h.followedBy_symm, h.followedBy⟩

theorem isSome_run?_eq (h : a.Renumbers b) (hqr : SameName a b q r) (word : List String) :
    (a.run? q word).isSome = (b.run? r word).isSome :=
  Bool.eq_iff_iff.mpr ⟨h.followedBy.isSome_run? hqr, h.followedBy_symm.isSome_run? hqr.symm⟩

theorem any_run?_eq (h : a.Renumbers b) (hqr : SameName a b q r) (word : List String) :
    (a.run? q word).any a.isAccepting = (b.run? r word).any b.isAccepting :=
  Bool.eq_iff_iff.mpr ⟨h.followedBy.any_run? hqr, h.followedBy_symm.any_run? hqr.symm⟩

theorem accepts_eq (h : a.Renumbers b) (word : List String) : a.accepts word = b.accepts word :=
  h.any_run?_eq h.followedBy.initial word

/-- States that no word tells apart in the one automaton are told apart by none in the other. -/
theorem indistinguishable (h : a.Renumbers b) {q' r' : Nat} (hq : SameName a b q q')
    (hr : SameName a b r r') (hqr : a.Indistinguishable q r) : b.Indistinguishable q' r' := by
  intro word hword
  have ⟨hrun, haccept⟩ := hqr word fun symbol hsymbol =>
    h.followedBy_symm.mem_alphabet symbol (hword symbol hsymbol)
  rw [← h.isSome_run?_eq hq, ← h.isSome_run?_eq hr, ← h.any_run?_eq hq, ← h.any_run?_eq hr]
  exact ⟨hrun, haccept⟩

theorem exists_indistinguishable (h : a.Renumbers b) {q' : Nat} (hq : SameName a b q q')
    {name : String} (hname : ∃ r, a.name? r = some name ∧ a.Indistinguishable q r) :
    ∃ r, b.name? r = some name ∧ b.Indistinguishable q' r := by
  obtain ⟨r, hr, hqr⟩ := hname
  obtain ⟨r', hr'⟩ := h.followedBy.exists_name? r name hr
  exact ⟨r', hr', h.indistinguishable hq ⟨name, hr, hr'⟩ hqr⟩

theorem mem_classes (h : a.Renumbers b) {m n : Minimized} {block block' : Nat → Nat}
    (hm : m.IsMinimizationOf a block) (hn : n.IsMinimizationOf b block') {s : SortedSet String}
    (hs : s ∈ m.classes) : s ∈ n.classes := by
  obtain ⟨q, hq, hnames⟩ := hm.mem_classes_iff.mp hs
  obtain ⟨name, hname⟩ := exists_name? hq
  obtain ⟨q', hname'⟩ := h.followedBy.exists_name? q name hname
  have hqq' : SameName a b q q' := ⟨name, hname, hname'⟩
  refine hn.mem_classes_iff.mpr ⟨q', lt_size_of_name? hname', fun name => (hnames name).trans ?_⟩
  exact ⟨h.exists_indistinguishable hqq', h.symm.exists_indistinguishable hqq'.symm⟩

theorem perm_classes (h : a.Renumbers b) (ha : a.names.Nodup) (hb : b.names.Nodup)
    {m n : Minimized} {block block' : Nat → Nat} (hm : m.IsMinimizationOf a block)
    (hn : n.IsMinimizationOf b block') : m.classes.Perm n.classes :=
  (List.perm_ext_iff_of_nodup (hm.nodup_classes ha) (hn.nodup_classes hb)).mpr fun _ =>
    ⟨h.mem_classes hm hn, h.symm.mem_classes hn hm⟩

end Renumbers

end Dfa

end DrawnModels
