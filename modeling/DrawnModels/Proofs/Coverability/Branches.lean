import DrawnModels.Coverability.Search
import DrawnModels.Proofs.Coverability.Ancestry
import DrawnModels.Proofs.Petri.Covering

/-!
# Branches of coverability trees

A marking stands at the end of a branch if it comes from the root by firing transitions, growing
against the markings before the last one each time. All markings that a search adds stand at the end
of branches, and nothing that a marking in the tree can fire is lost: what it leads to is in the
tree or still to be added.
-/

namespace DrawnModels

namespace Coverability

variable {cap : Capacity} {n : Net}

/-- `m` is reached from `root` along the markings of `path`, the nearest first. -/
inductive Branch (n : Net) (root : Marking cap) : List (Marking cap) → Marking cap → Prop
  | root : Branch n root [] root
  | fire {path m t m'} : Branch n root path m → t ∈ n.transitionList → m.enables t = true →
      m.fire? t = some m' → Branch n root (m :: path) (Pending.grown path m')

namespace Pending

variable {places : Nat} {p q : Pending cap places}

theorem grown_cases (path : List (Marking cap)) (m : Marking cap) :
    grown path m = m ∨
      ∃ old ∈ path, m.strictlyCovers old = true ∧ grown path m = m.accelerate old := by
  unfold grown
  split
  · rename_i old h
    refine Or.inr ⟨old, List.mem_reverse.mp (List.mem_of_find?_eq_some h), ?_, rfl⟩
    exact List.find?_some h
  · exact Or.inl rfl

theorem get_grown_cases (path : List (Marking cap)) (m : Marking cap) (p : Nat) :
    (grown path m).get p = .omega ∨ (grown path m).get p = m.get p := by
  rcases grown_cases path m with h | ⟨old, -, hcovers, h⟩ <;> rw [h]
  · exact Or.inr rfl
  · have hcovers := Marking.covers_of_strictlyCovers hcovers
    exact (Marking.get_accelerate_cases hcovers p).imp And.right And.right

theorem grown_eq_self {path : List (Marking cap)} {m : Marking cap}
    (h : ∀ p, ((grown path m).get p).isOmega = (m.get p).isOmega) : grown path m = m := by
  apply Marking.ext_get (size_grown path m)
  intro p
  rcases get_grown_cases path m p with hp | hp
  · have hω := h p
    rw [hp] at hω ⊢
    exact (Tokens.eq_omega hω.symm).symm
  · exact hp

/-- What is pending, whatever the number of places. -/
def content (p : Pending cap places) : Marking cap × Option Origin × List (Marking cap) :=
  (p.marking, p.origin, p.path)

theorem content_eq_iff {places' : Nat} {p' : Pending cap places'} :
    p.content = p'.content ↔ p.marking = p'.marking ∧ p.origin = p'.origin ∧ p.path = p'.path := by
  simp [content, Prod.ext_iff]

/-- The content of the successor that has reached `m` before it grows. -/
def contentAfter (p : Pending cap places) (id i : Nat) (m : Marking cap) :
    Marking cap × Option Origin × List (Marking cap) :=
  (grown p.path m, some ⟨id, i⟩, p.marking :: p.path)

theorem content_eq_contentAfter_iff {id i : Nat} {m : Marking cap} :
    q.content = p.contentAfter id i m ↔
      q.marking = grown p.path m ∧ q.origin = some ⟨id, i⟩ ∧ q.path = p.marking :: p.path := by
  simp [content, contentAfter, Prod.ext_iff]

/-- Whatever fires is enabled, so firing alone decides whether there is a successor. -/
theorem map_content_successor? (p : Pending cap places) (id i : Nat) (t : Transition) :
    (p.successor? id i t).map content = (p.marking.fire? t).map (p.contentAfter id i) := by
  unfold successor?
  split
  · split
    · rename_i m hm
      exact (congrArg (Option.map (p.contentAfter id i)) hm).symm
    · rename_i hnone
      rw [hnone]
      rfl
  · rename_i hdisabled
    cases hfire : p.marking.fire? t with
    | none => rfl
    | some m => exact absurd (Marking.fire?_eq_some_iff.mp hfire).1 hdisabled

theorem exists_of_mem_successors {id : Nat} (h : q ∈ p.successors n id) :
    ∃ i t m', n.transitionList[i]? = some t ∧ p.marking.fire? t = some m' ∧
      q.origin = some ⟨id, i⟩ ∧ q.marking = grown p.path m' ∧ q.path = p.marking :: p.path := by
  obtain ⟨⟨t, i⟩, hmem, hq⟩ := List.mem_filterMap.mp h
  have hcontent := p.map_content_successor? id i t
  rw [hq, Option.map_some] at hcontent
  obtain ⟨m', hm', hafter⟩ := Option.map_eq_some_iff.mp hcontent.symm
  obtain ⟨hmarking, horigin, hpath⟩ := content_eq_contentAfter_iff.mp hafter.symm
  exact ⟨i, t, m', List.mk_mem_zipIdx_iff_getElem?.mp hmem, hm', horigin, hmarking, hpath⟩

theorem mem_successors {id : Nat} (h : q ∈ p.successors n id) :
    ∃ t ∈ n.transitionList, ∃ m', p.marking.enables t = true ∧ p.marking.fire? t = some m' ∧
      q.marking = grown p.path m' ∧ q.path = p.marking :: p.path := by
  obtain ⟨i, t, m', ht, hfire, -, hmarking, hpath⟩ := exists_of_mem_successors h
  have hen := (Marking.fire?_eq_some_iff.mp hfire).1
  exact ⟨t, List.mem_of_getElem? ht, m', hen, hfire, hmarking, hpath⟩

theorem exists_mem_successors (p : Pending cap places) (id : Nat) {t : Transition}
    (ht : t ∈ n.transitionList) {m' : Marking cap} (hfire : p.marking.fire? t = some m') :
    ∃ q ∈ p.successors n id, q.marking = grown p.path m' := by
  obtain ⟨i, hi⟩ := List.mem_iff_getElem?.mp ht
  have hcontent := p.map_content_successor? id i t
  rw [hfire, Option.map_some] at hcontent
  obtain ⟨q, hq, hafter⟩ := Option.map_eq_some_iff.mp hcontent
  have hmem : q ∈ p.successors n id :=
    List.mem_filterMap.mpr ⟨(t, i), List.mk_mem_zipIdx_iff_getElem?.mpr hi, hq⟩
  exact ⟨q, hmem, (content_eq_contentAfter_iff.mp hafter).1⟩

end Pending

theorem Branch.size_eq {root m : Marking cap} {path : List (Marking cap)}
    (h : Branch n root path m) : ∀ old ∈ m :: path, old.size = root.size := by
  induction h with
  | root => simp
  | fire hbranch ht hen hfire ih =>
    refine List.forall_mem_cons.mpr ⟨?_, ih⟩
    rw [Pending.size_grown, Marking.size_of_fire? hfire]
    exact ih _ List.mem_cons_self

theorem Branch.size_eq_end {root m old : Marking cap} {path : List (Marking cap)}
    (h : Branch n root path m) (hold : old ∈ m :: path) : old.size = m.size :=
  (h.size_eq old hold).trans (h.size_eq m List.mem_cons_self).symm

namespace Search

variable {s t : Search cap n}

theorem step?_of_nil (h : s.pending = []) : s.step? = none := by
  unfold step?
  split
  · rfl
  · rename_i hp
    rw [h] at hp
    cases hp

theorem step?_of_cons {p : Pending cap n.placeCount}
    {rest : List (Pending cap n.placeCount)} (h : s.pending = p :: rest) :
    s.step? = if s.tree.contains p.marking then some (s.addLeaf p rest h)
      else some (s.addExplored p rest h) := by
  unfold step?
  split
  · rename_i hp
    rw [h] at hp
    cases hp
  · rename_i hp
    obtain ⟨rfl, rfl⟩ := List.cons.inj (h.symm.trans hp)
    rfl

/-- A step moves the next marking into the tree. Unless the marking was visited before, the step
visits it and puts its successors in its place. -/
theorem cases_of_step? (h : s.step? = some t) :
    ∃ p rest, s.pending = p :: rest ∧ t.tree.markings = s.tree.markings ++ [p.marking] ∧
      ((s.tree.contains p.marking = true ∧ t.tree.contains = s.tree.contains ∧ t.pending = rest) ∨
        (s.tree.contains p.marking = false ∧
          (∀ m, t.tree.contains m = true ↔ m = p.marking ∨ s.tree.contains m = true) ∧
          t.pending = (p.successors n s.tree.size).reverse ++ rest)) := by
  cases hp : s.pending with
  | nil =>
    rw [step?_of_nil hp] at h
    cases h
  | cons p rest =>
    refine ⟨p, rest, rfl, ?_⟩
    rw [step?_of_cons hp] at h
    split at h
    · rename_i hc
      cases h
      have hm : (s.addLeaf p rest hp).tree.markings = s.tree.markings ++ [p.marking] :=
        Tree.markings_push (s.origin_lt p (by simp [hp]))
      exact ⟨hm, Or.inl ⟨hc, rfl, rfl⟩⟩
    · rename_i hc
      cases h
      have hm : (s.addExplored p rest hp).tree.markings = s.tree.markings ++ [p.marking] :=
        Tree.markings_push (s.origin_lt p (by simp [hp]))
      exact ⟨hm, Or.inr ⟨Bool.not_eq_true _ ▸ hc, fun m => Tree.contains_visit, rfl⟩⟩

theorem names_of_step? (h : s.step? = some t) :
    t.tree.places = s.tree.places ∧ t.tree.transitions = s.tree.transitions := by
  cases hp : s.pending with
  | nil =>
    rw [step?_of_nil hp] at h
    cases h
  | cons p rest =>
    rw [step?_of_cons hp] at h
    split at h <;> cases h <;> exact ⟨rfl, rfl⟩

theorem pending_eq_nil_of_step? (h : s.step? = none) : s.pending = [] := by
  cases hp : s.pending with
  | nil => rfl
  | cons p rest =>
    rw [step?_of_cons hp] at h
    split at h <;> cases h

/-- What holds of the search at the start and after every step holds in the end. -/
theorem exists_final {most : Nat} {P : Search (.upTo most) n → Prop}
    (hstep : ∀ s t, P s → s.step? = some t → P t) (s : Search (.upTo most) n) (hs : P s) :
    ∃ t, s.run = t.tree ∧ t.pending = [] ∧ P t := by
  induction s using run.induct with
  | case1 s hnone => exact ⟨s, by rw [run, hnone], pending_eq_nil_of_step? hnone, hs⟩
  | case2 s t hsome ih =>
    obtain ⟨u, hu, hnil, hPu⟩ := ih (hstep s t hs hsome)
    exact ⟨u, by rw [run, hsome]; exact hu, hnil, hPu⟩

def runWithin {most : Nat} : Nat → Search (.upTo most) n → Option (Tree (.upTo most))
  | 0, _ => none
  | steps + 1, s =>
    match s.step? with
    | none => some s.tree
    | some t => runWithin steps t

theorem run_eq_of_runWithin {most steps : Nat} {s : Search (.upTo most) n} {t : Tree (.upTo most)}
    (h : runWithin steps s = some t) : s.run = t := by
  induction steps generalizing s with
  | zero => cases h
  | succ steps ih =>
    rw [runWithin] at h
    rw [run]
    split
    · rename_i hnone
      rw [hnone] at h
      exact Option.some.inj h
    · rename_i u hsome
      rw [hsome] at h
      exact ih h

/-- The marking is in the tree, or it is to be added. -/
def Foresees (s : Search cap n) (m : Marking cap) : Prop :=
  m ∈ s.tree.markings ∨ ∃ p ∈ s.pending, p.marking = m

theorem mem_markings_of_step? (h : s.step? = some t) {m : Marking cap}
    (hm : m ∈ s.tree.markings) : m ∈ t.tree.markings := by
  obtain ⟨p, rest, -, hmarkings, -⟩ := cases_of_step? h
  rw [hmarkings]
  exact List.mem_append_left _ hm

theorem Foresees.step {m : Marking cap} (hm : s.Foresees m) (h : s.step? = some t) :
    t.Foresees m := by
  obtain ⟨p, rest, hp, hmarkings, hcases⟩ := cases_of_step? h
  rcases hm with hm | ⟨q, hq, rfl⟩
  · exact Or.inl (mem_markings_of_step? h hm)
  · rw [hp] at hq
    rcases List.mem_cons.mp hq with rfl | hq
    · exact Or.inl (by simp [hmarkings])
    · refine Or.inr ⟨q, ?_, rfl⟩
      rcases hcases with ⟨-, -, hrest⟩ | ⟨-, -, hrest⟩ <;> simp [hrest, hq]

/-- What a search has found and what it still has to add. -/
structure Traced (root : Marking cap) (s : Search cap n) : Prop where
  start : s.Foresees root
  contains_iff : ∀ m, s.tree.contains m = true ↔ m ∈ s.tree.markings
  pending : ∀ p ∈ s.pending, Branch n root p.path p.marking ∧ ∀ m ∈ p.path, m ∈ s.tree.markings
  nodes : ∀ m ∈ s.tree.markings,
    ∃ path, Branch n root path m ∧ ∀ m' ∈ path, m' ∈ s.tree.markings
  closed : ∀ m ∈ s.tree.markings, ∀ t ∈ n.transitionList, ∀ m', m.enables t = true →
    m.fire? t = some m' → ∃ path, s.Foresees (Pending.grown path m')

theorem traced_start (n : Net) (initial : Marking cap) :
    Traced (initial.resized n.placeCount) (start n initial) where
  start := Or.inr ⟨_, List.mem_singleton_self _, rfl⟩
  contains_iff m := by simp [Search.start, Tree.empty, Tree.contains, Tree.markings]
  pending p hp := by
    rw [List.mem_singleton.mp hp]
    exact ⟨Branch.root, fun m hm => absurd hm List.not_mem_nil⟩
  nodes m hm := absurd hm List.not_mem_nil
  closed m hm := absurd hm List.not_mem_nil

theorem Traced.step {root : Marking cap} (hs : Traced root s) (h : s.step? = some t) :
    Traced root t := by
  obtain ⟨p, rest, hp, hmarkings, hcases⟩ := cases_of_step? h
  have hold := fun m => mem_markings_of_step? h (m := m)
  have hnew : ∀ m ∈ t.tree.markings, m ∈ s.tree.markings ∨ m = p.marking := by
    simp [hmarkings]
  obtain ⟨hbranch, hpath⟩ := hs.pending p (by simp [hp])
  constructor
  case start => exact hs.start.step h
  case contains_iff =>
    intro m
    rw [hmarkings, List.mem_append, List.mem_singleton, ← hs.contains_iff]
    rcases hcases with ⟨hc, hvisited, -⟩ | ⟨-, hvisited, -⟩
    · rw [hvisited]
      exact ⟨Or.inl, fun hm => hm.elim id fun e => e ▸ hc⟩
    · exact (hvisited m).trans or_comm
  case pending =>
    intro q hq
    have hq : q ∈ rest ∨ q ∈ p.successors n s.tree.size := by
      rcases hcases with ⟨-, -, hrest⟩ | ⟨-, -, hrest⟩
      · exact Or.inl (hrest ▸ hq)
      · rw [hrest, List.mem_append, List.mem_reverse] at hq
        exact hq.symm
    rcases hq with hq | hq
    · obtain ⟨hqb, hqp⟩ := hs.pending q (by simp [hp, hq])
      exact ⟨hqb, fun m hm => hold m (hqp m hm)⟩
    · obtain ⟨tr, htr, m', hen, hfire, hqm, hqp⟩ := Pending.mem_successors hq
      have hadded : p.marking ∈ t.tree.markings := by simp [hmarkings]
      rw [hqm, hqp]
      refine ⟨hbranch.fire htr hen hfire, List.forall_mem_cons.mpr ⟨hadded, fun m hm => ?_⟩⟩
      exact hold m (hpath m hm)
  case nodes =>
    intro m hm
    rcases hnew m hm with hm | rfl
    · obtain ⟨path, hb, hmem⟩ := hs.nodes m hm
      exact ⟨path, hb, fun m' hm' => hold m' (hmem m' hm')⟩
    · exact ⟨p.path, hbranch, fun m' hm' => hold m' (hpath m' hm')⟩
  case closed =>
    intro m hm tr htr m' hen hfire
    have hfrom : m ∈ s.tree.markings → ∃ path, t.Foresees (Pending.grown path m') := by
      intro hm
      obtain ⟨path, hforesees⟩ := hs.closed m hm tr htr m' hen hfire
      exact ⟨path, hforesees.step h⟩
    rcases hnew m hm with hm | rfl
    · exact hfrom hm
    · -- A marking that was in the tree already has its successors from there.
      rcases hcases with ⟨hc, -, -⟩ | ⟨-, -, hrest⟩
      · exact hfrom ((hs.contains_iff _).mp hc)
      · obtain ⟨q, hq, hqm⟩ := p.exists_mem_successors s.tree.size htr hfire
        exact ⟨p.path, Or.inr ⟨q, by simp [hrest, hq], hqm⟩⟩

end Search

/-- Markings that are kept by firing a transition and growing against some markings. -/
structure Closed (n : Net) (root : Marking cap) (S : Marking cap → Prop) : Prop where
  start : S root
  fire : ∀ m, S m → ∀ t ∈ n.transitionList, ∀ m', m.enables t = true → m.fire? t = some m' →
    ∃ path, S (Pending.grown path m')

/-- The finished tree: its markings stand at the end of branches within the tree, and they are
closed under firing and growing. -/
structure Tree.Complete (t : Tree cap) (n : Net) (root : Marking cap) : Prop where
  nodes : ∀ m ∈ t.markings, ∃ path, Branch n root path m ∧ ∀ m' ∈ path, m' ∈ t.markings
  closed : Closed n root fun m => m ∈ t.markings

/-- What a search has found is complete once nothing is left to be added. -/
theorem Search.Traced.complete {root : Marking cap} {s : Search cap n} (h : Search.Traced root s)
    (hnil : s.pending = []) : s.tree.Complete n root := by
  have hforesees : ∀ m, s.Foresees m → m ∈ s.tree.markings := by
    intro m hm
    simpa [Search.Foresees, hnil] using hm
  refine ⟨h.nodes, hforesees _ h.start, ?_⟩
  intro m hm t ht m' hen hfire
  obtain ⟨path, hpath⟩ := h.closed m hm t ht m' hen hfire
  exact ⟨path, hforesees _ hpath⟩

theorem exists_traced_explore {most : Nat} (n : Net) (initial : Marking (.upTo most)) :
    ∃ s : Search (.upTo most) n, explore n initial = s.tree ∧ s.pending = [] ∧
      Search.Traced (initial.resized n.placeCount) s :=
  Search.exists_final (fun _ _ => Search.Traced.step) (Search.start n initial)
    (Search.traced_start n initial)

theorem complete_explore {most : Nat} (n : Net) (initial : Marking (.upTo most)) :
    (explore n initial).Complete n (initial.resized n.placeCount) := by
  obtain ⟨s, hs, hnil, htraced⟩ := exists_traced_explore n initial
  rw [hs]
  exact htraced.complete hnil

theorem contains_explore_iff {most : Nat} {initial m : Marking (.upTo most)} :
    (explore n initial).contains m = true ↔ m ∈ (explore n initial).markings := by
  obtain ⟨s, hs, -, htraced⟩ := exists_traced_explore n initial
  rw [hs]
  exact htraced.contains_iff m

theorem size_of_mem_explore {most : Nat} {initial m : Marking (.upTo most)}
    (hm : m ∈ (explore n initial).markings) : m.size = n.placeCount := by
  obtain ⟨path, hbranch, -⟩ := (complete_explore n initial).nodes m hm
  rw [hbranch.size_eq m List.mem_cons_self, Marking.size_resized]

theorem apply_explore_of_runWithin {most : Nat} {initial : Marking (.upTo most)} {α : Type}
    (f : Tree (.upTo most) → α) (steps : Nat) {a : α}
    (h : ((Search.start n initial).runWithin steps).map f = some a) :
    f (explore n initial) = a := by
  obtain ⟨t, ht, rfl⟩ := Option.map_eq_some_iff.mp h
  rw [explore, Search.run_eq_of_runWithin ht]

theorem markings_explore_of_runWithin {most : Nat} {initial : Marking (.upTo most)} (steps : Nat)
    {markings : List (Marking (.upTo most))}
    (h : ((Search.start n initial).runWithin steps).map Tree.markings = some markings) :
    (explore n initial).markings = markings :=
  apply_explore_of_runWithin Tree.markings steps h

theorem names_explore {most : Nat} (n : Net) (initial : Marking (.upTo most)) :
    (explore n initial).places = n.placeNames ∧
      (explore n initial).transitions = n.transitionNames := by
  obtain ⟨s, hs, -, hplaces, htransitions⟩ := Search.exists_final
    (P := fun s : Search (.upTo most) n =>
      s.tree.places = n.placeNames ∧ s.tree.transitions = n.transitionNames)
    (fun s t ⟨hplaces, htransitions⟩ h => by
      obtain ⟨hp, ht⟩ := Search.names_of_step? h
      exact ⟨hp.trans hplaces, ht.trans htransitions⟩)
    (Search.start n initial) ⟨rfl, rfl⟩
  rw [explore, hs]
  exact ⟨hplaces, htransitions⟩

end Coverability

/-- A net with a transition that puts tokens and takes none. -/
def Net.producer : Net :=
  .make ["p"] [⟨"t", [], ["p"]⟩]

namespace Coverability

theorem markings_producer : (explore Net.producer (.zero 1 : Marking .word)).markings =
    [⟨[.finite (.ofNat _ 0)]⟩, ⟨[.finite (.ofNat _ 1)]⟩, ⟨[.omega]⟩, ⟨[.omega]⟩] :=
  markings_explore_of_runWithin 5 (by decide +kernel)

theorem not_full_producer : ∀ m ∈ (explore Net.producer (.zero 1 : Marking .word)).markings,
    Tokens.full ∉ m.counts := by
  rw [markings_producer]
  decide +kernel

end Coverability

end DrawnModels
