import DrawnModels.Proofs.Coverability.Branches
import DrawnModels.Proofs.Petri.Arcs
import Mathlib.Data.List.Nodup

/-!
# The rule of coverability trees

All subtrees grow on one stack, and whether a marking was visited before is decided only when it
is taken from there. The finished tree nevertheless has exactly the nodes that a rule asks for,
which speaks of single nodes: of where a node comes from, which markings are above it, which
transitions it has children for, and what they carry.

While the tree grows, the rule holds of the nodes and of the markings on the stack together: the
children that an explored node has, and those that are still to be added, are the ones that it
should have.
-/

namespace DrawnModels

namespace Net

/-- The numbers of the transitions that a marking enables, from the least. -/
def enabledAt {cap : Capacity} (n : Net) (m : Marking cap) : List Nat :=
  (n.transitionList.zipIdx.filter fun e => m.enables e.1).map Prod.snd

/-- The places that transitions put tokens on are places of the net. -/
def HasOutputs (n : Net) : Prop :=
  ∀ t ∈ n.transitionList, ∀ p ∈ t.outputs, p < n.placeCount

theorem hasOutputs_make (places : List String) (transitions : List NamedTransition) :
    (make places transitions).HasOutputs :=
  fun _ ht _ hp => lt_placeCount_make places transitions ht (Or.inr hp)

end Net

namespace Coverability

variable {cap : Capacity} {n : Net} {root : Marking cap}

/-- What becomes of a marking below others, which are listed from the root: it gets ω on the places on
which it has more tokens than the first one that it exceeds, and on no other places. -/
inductive Grows (above : List (Marking cap)) (m grown : Marking cap) : Prop
  | over {before old after} : above = before ++ old :: after → (∀ m' ∈ before, ¬ m.Exceeds m') →
      m.Exceeds old → grown.size = m.size →
      (∀ p, grown.get p = if old.get p < m.get p then .omega else m.get p) → Grows above m grown
  | stays : (∀ m' ∈ above, ¬ m.Exceeds m') → grown = m → Grows above m grown

/-- The tree has the nodes that the rule asks for. -/
structure Tree.FollowsRule (t : Tree cap) (n : Net) (initial : Marking cap) : Prop where
  /-- The first node comes from nowhere and carries the marking of the start, in which places that are
  left out are empty. -/
  root : ∃ k, t.node? t.root = some k ∧ k.origin = none ∧ k.marking.size = n.placeCount ∧
    ∀ p < n.placeCount, k.marking.get p = initial.get p
  /-- Every other node is a child of one explored node with a smaller number. -/
  parent : ∀ c k, t.node? c = some k → c ≠ t.root → ∃ o p, k.origin = some o ∧ o.node < c ∧
    t.node? o.node = some p ∧ p.kind = .explored ∧ (t.children o.node).count c = 1 ∧
    ∀ id, c ∈ t.children id → id = o.node
  /-- A node is a repeat if a node with a smaller number has its marking. -/
  revisited_iff : ∀ c k, t.node? c = some k →
    (k.kind = .revisited ↔ ∃ b < c, ∃ k', t.node? b = some k' ∧ k'.marking = k.marking)
  leaf : ∀ c k, t.node? c = some k → k.kind = .revisited → t.children c = []
  /-- An explored node has a child for each transition that its marking enables, from the last
  transition to the first. -/
  children : ∀ id k, t.node? id = some k → k.kind = .explored →
    (t.children id).map t.origin? = (n.enabledAt k.marking).reverse.map fun i => some ⟨id, i⟩
  /-- A child carries the marking after its transition has fired, which grows over the markings
  above its parent. -/
  marking : ∀ c k o, t.node? c = some k → k.origin = some o → ∃ p tr m, t.node? o.node = some p ∧
    n.transitionList[o.transition]? = some tr ∧ p.marking.fire? tr = some m ∧
    Grows (t.markingsOf (t.ancestors o.node).reverse) m k.marking
  contains_iff : ∀ m, t.contains m = true ↔ ∃ id k, t.node? id = some k ∧ k.marking = m

/-! ### Successors -/

namespace Pending

theorem grows_grown (path : List (Marking cap)) (m : Marking cap) :
    Grows path.reverse m (grown path m) := by
  unfold grown
  split
  · rename_i old h
    obtain ⟨hcovers, before, after, hpath, hbefore⟩ := List.find?_eq_some_iff_append.mp h
    have hexceeds := Marking.strictlyCovers_iff.mp hcovers
    refine .over hpath (fun m' hm' => ?_) hexceeds (Marking.size_accelerate m old)
      (Marking.get_accelerate hexceeds.size_eq)
    rw [← Marking.strictlyCovers_iff]
    simpa using hbefore m' hm'
  · rename_i h
    refine .stays (fun m' hm' => ?_) rfl
    rw [← Marking.strictlyCovers_iff]
    exact List.find?_eq_none.mp h m' hm'

theorem map_origin_successors (hn : n.HasOutputs) (p : Pending cap n.placeCount) (id : Nat) :
    (p.successors n id).map Pending.origin =
      (n.enabledAt p.marking).map fun i => some ⟨id, i⟩ := by
  have hone : ∀ e ∈ n.transitionList.zipIdx, (p.successor? id e.2 e.1).map Pending.origin =
      if p.marking.enables e.1 then some (some ⟨id, e.2⟩) else none := by
    intro e he
    have horigin : (p.successor? id e.2 e.1).map Pending.origin =
        (p.marking.fire? e.1).map fun _ => some ⟨id, e.2⟩ := by
      have hcontent := congrArg (Option.map fun x => x.2.1) (p.map_content_successor? id e.2 e.1)
      rwa [Option.map_map, Option.map_map] at hcontent
    rw [horigin]
    split
    · rename_i hen
      have ht : e.1 ∈ n.transitionList := (List.mem_zipIdx' he).2 ▸ List.getElem_mem _
      obtain ⟨m, hm⟩ := Marking.exists_fire? hen fun q hq => p.size_eq.symm ▸ hn e.1 ht q hq
      rw [hm, Option.map_some]
    · rename_i hdisabled
      rw [Option.map_eq_none_iff, Option.eq_none_iff_forall_ne_some]
      intro m hm
      exact hdisabled (Marking.fire?_eq_some_iff.mp hm).1
  rw [successors, List.map_filterMap, List.filterMap_congr hone, Net.enabledAt, List.map_map,
    ← List.filterMap_eq_map', List.filterMap_filter]
  rfl

end Pending

/-! ### While the tree grows -/

/-- The rule has a node with the given origin and marking. -/
inductive Tree.Expects (t : Tree cap) (n : Net) (root : Marking cap) :
    Option Origin → Marking cap → Prop
  | root : Expects t n root none root
  | fire {o e tr m} : t.entryAt o.node = some e → e.kind = .explored →
      n.transitionList[o.transition]? = some tr → e.marking.fire? tr = some m →
      Expects t n root (some o) (Pending.grown (t.markingsOf (t.ancestors o.node)) m)

theorem Tree.Expects.eq_root {t : Tree cap} {m : Marking cap} (h : t.Expects n root none m) :
    m = root := by
  cases h
  rfl

theorem Tree.Expects.exists_parent {t : Tree cap} {o : Origin} {m : Marking cap}
    (h : t.Expects n root (some o) m) : ∃ p tr m', t.node? o.node = some p ∧ p.kind = .explored ∧
      n.transitionList[o.transition]? = some tr ∧ p.marking.fire? tr = some m' ∧
      Grows (t.markingsOf (t.ancestors o.node).reverse) m' m := by
  cases h with
  | fire he hkind htr hm =>
    obtain ⟨p, hp, rfl⟩ := Tree.exists_node?_of_entryAt he
    refine ⟨p, _, _, hp, hkind, htr, hm, ?_⟩
    rw [markingsOf, List.filterMap_reverse]
    exact Pending.grows_grown _ _

theorem Tree.Expects.mono {t u : Tree cap} {o : Option Origin} {m : Marking cap}
    (h : t.Expects n root o m) (hu : u.Extends t) : u.Expects n root o m := by
  cases h with
  | root => exact .root
  | fire he hkind htr hm =>
    rw [← hu.markingsOf_ancestors (Tree.lt_size_of_entryAt he)]
    exact .fire (hu _ _ he) hkind htr hm

namespace Search

variable {s t : Search cap n}

/-- The origins of the nodes and then of the markings that are to be added. -/
def origins (s : Search cap n) : List (Option Origin) :=
  s.tree.origins ++ s.pending.map Pending.origin

theorem lt_size_of_mem_origins (hs : s.tree.IsLinked) {o : Option Origin} (h : o ∈ s.origins) :
    ∀ x ∈ o, x.node < s.tree.size := by
  intro x hx
  rcases List.mem_append.mp h with h | h
  · rw [Tree.origins_eq_map_origin?] at h
    obtain ⟨id, hid, horigin⟩ := List.mem_map.mp h
    exact Nat.lt_trans (hs.origin_lt id x (horigin.trans hx)) (List.mem_range.mp hid)
  · obtain ⟨p, hp, rfl⟩ := List.mem_map.mp h
    exact s.origin_lt p hp x hx

def entryOf (s : Search cap n) (p : Pending cap n.placeCount) : Entry cap :=
  ⟨p.marking, if s.tree.contains p.marking then .revisited else .explored, p.origin⟩

/-- The markings that take the place of the next one. -/
def newPending (s : Search cap n) (p : Pending cap n.placeCount) :
    List (Pending cap n.placeCount) :=
  if s.tree.contains p.marking then [] else (p.successors n s.tree.size).reverse

theorem tree_of_step? (h : s.step? = some t) : ∃ p rest, s.pending = p :: rest ∧
    t.pending = s.newPending p ++ rest ∧
      ∃ horigin : ∀ o ∈ (s.entryOf p).origin, o.node < s.tree.size,
        t.tree = s.tree.push (s.entryOf p) horigin ∨
          t.tree = (s.tree.push (s.entryOf p) horigin).visit p.marking := by
  cases hp : s.pending with
  | nil =>
    rw [step?_of_nil hp] at h
    cases h
  | cons p rest =>
    refine ⟨p, rest, rfl, ?_⟩
    rw [step?_of_cons hp] at h
    unfold entryOf newPending
    split at h
    · rename_i hc
      cases h
      simp only [if_pos hc]
      exact ⟨rfl, s.origin_lt p (by simp [hp]), Or.inl rfl⟩
    · rename_i hc
      cases h
      simp only [if_neg hc]
      exact ⟨rfl, s.origin_lt p (by simp [hp]), Or.inr rfl⟩

theorem entries_of_step? (h : s.step? = some t) : ∃ p rest, s.pending = p :: rest ∧
    t.tree.entries = s.tree.entries.push (s.entryOf p) ∧ t.pending = s.newPending p ++ rest := by
  obtain ⟨p, rest, hp, hpending, horigin, htree | htree⟩ := tree_of_step? h
  · exact ⟨p, rest, hp, htree ▸ Tree.entries_push horigin, hpending⟩
  · exact ⟨p, rest, hp, htree ▸ Tree.entries_push horigin, hpending⟩

theorem isLinked_of_step? (hs : s.tree.IsLinked) (h : s.step? = some t) : t.tree.IsLinked := by
  obtain ⟨p, rest, hp, hpending, horigin, htree | htree⟩ := tree_of_step? h <;> rw [htree]
  · exact hs.push horigin
  · exact (hs.push horigin).visit p.marking

theorem kind_entryOf {p : Pending cap n.placeCount} :
    (s.entryOf p).kind = .revisited ↔ s.tree.contains p.marking = true := by
  unfold entryOf
  cases s.tree.contains p.marking <;> simp

/-- The explored nodes have children, or will have them, for all transitions that are enabled there. -/
def FiresAll (s : Search cap n) : Prop :=
  ∀ id e, s.tree.entryAt id = some e → e.kind = .explored →
    Tree.originsAt id s.origins = (n.enabledAt e.marking).reverse.map fun i => some ⟨id, i⟩

/-- What holds of the nodes and of the markings that are to be added, at any time. -/
structure Ruled (root : Marking cap) (s : Search cap n) : Prop where
  linked : s.tree.IsLinked
  nodes : ∀ id e, s.tree.entryAt id = some e → s.tree.Expects n root e.origin e.marking
  pending : ∀ p ∈ s.pending, s.tree.Expects n root p.origin p.marking ∧
    p.path = s.tree.markingsOf (s.tree.lineage p.origin)
  revisited_iff : ∀ id e, s.tree.entryAt id = some e →
    (e.kind = .revisited ↔ e.marking ∈ s.tree.markings.take id)
  oneRoot : ∃ l, s.origins = none :: l ∧ none ∉ l
  firesAll : n.HasOutputs → FiresAll s

theorem entryAt_start (initial : Marking cap) (id : Nat) : (start n initial).tree.entryAt id = none :=
  rfl

theorem ruled_start (n : Net) (initial : Marking cap) :
    Ruled (initial.resized n.placeCount) (start n initial) where
  linked := Tree.isLinked_empty n
  nodes id e he := absurd he (by simp [entryAt_start])
  pending p hp := by
    rw [List.mem_singleton.mp hp]
    exact ⟨.root, rfl⟩
  revisited_iff id e he := absurd he (by simp [entryAt_start])
  oneRoot := ⟨[], by simp [origins, start, Tree.origins, Tree.entries, Tree.empty], by simp⟩
  firesAll _ id e he := absurd he (by simp [entryAt_start])

section Step

variable {p : Pending cap n.placeCount} {rest : List (Pending cap n.placeCount)}

theorem eq_some_of_mem_newPending {o : Option Origin}
    (ho : o ∈ (s.newPending p).map Pending.origin) : ∃ i, o = some ⟨s.tree.size, i⟩ := by
  obtain ⟨q, hq, rfl⟩ := List.mem_map.mp ho
  unfold newPending at hq
  split at hq
  · cases hq
  · exact Pending.origin_of_mem_successors (List.mem_reverse.mp hq)

theorem map_origin_newPending (hn : n.HasOutputs) (h : (s.entryOf p).kind = .explored) :
    (s.newPending p).map Pending.origin =
      (n.enabledAt p.marking).reverse.map fun i => some ⟨s.tree.size, i⟩ := by
  have hc : ¬ s.tree.contains p.marking = true := by
    rw [← kind_entryOf, h]
    decide
  rw [newPending, if_neg hc, List.map_reverse, Pending.map_origin_successors hn, List.map_reverse]

variable (hentries : t.tree.entries = s.tree.entries.push (s.entryOf p))
include hentries

theorem Ruled.revisited_iff_step (htraced : Traced root s) (hs : Ruled root s) {id : Nat}
    {e : Entry cap} (he : t.tree.entryAt id = some e) :
    e.kind = .revisited ↔ e.marking ∈ t.tree.markings.take id := by
  have hmarkings : t.tree.markings = s.tree.markings ++ [p.marking] := by
    simp [Tree.markings_eq, hentries, entryOf]
  have hlength : s.tree.markings.length = s.tree.size := by
    simp [Tree.markings, Tree.size]
  rcases Tree.entryAt_cases_of_entries_eq hentries he with he | ⟨rfl, rfl⟩
  · have hle := Nat.le_of_lt (Tree.lt_size_of_entryAt he)
    rw [hmarkings, List.take_append_of_le_length (hlength ▸ hle)]
    exact hs.revisited_iff id e he
  · rw [hmarkings, List.take_left' hlength, kind_entryOf]
    exact htraced.contains_iff p.marking

variable (hp : s.pending = p :: rest)
include hp

theorem Ruled.expects_of_mem_newPending (hs : Ruled root s) (ht : t.tree.IsLinked)
    {q : Pending cap n.placeCount} (hq : q ∈ s.newPending p) :
    t.tree.Expects n root q.origin q.marking ∧
      q.path = t.tree.markingsOf (t.tree.lineage q.origin) := by
  have hmem : p ∈ s.pending := by simp [hp]
  have hnew : t.tree.entryAt s.tree.size = some (s.entryOf p) := by
    rw [Tree.entryAt_of_entries_eq hentries, if_pos rfl]
  have hpath : p.path = t.tree.markingsOf (t.tree.ancestors s.tree.size) := by
    have horigin : t.tree.origin? s.tree.size = p.origin := Tree.origin?_of_entryAt hnew
    rw [ht.ancestors_eq_lineage, horigin,
      (Tree.extends_of_entries_eq hentries).markingsOf_lineage (s.origin_lt p hmem)]
    exact (hs.pending p hmem).2
  unfold newPending at hq
  split at hq
  · cases hq
  · rename_i hc
    obtain ⟨i, tr, m, htr, hm, horigin, hmarking, hqpath⟩ :=
      Pending.exists_of_mem_successors (List.mem_reverse.mp hq)
    rw [horigin, hmarking, hqpath, hpath]
    exact ⟨.fire hnew (if_neg hc) htr hm, (Tree.markingsOf_cons hnew _).symm⟩

variable (hpending : t.pending = s.newPending p ++ rest)
include hpending

theorem origins_step : s.origins = t.tree.origins ++ rest.map Pending.origin ∧
    t.origins = t.tree.origins ++
      ((s.newPending p).map Pending.origin ++ rest.map Pending.origin) := by
  have htree : t.tree.origins = s.tree.origins ++ [p.origin] := by
    simp [Tree.origins, hentries, entryOf]
  constructor
  · simp [origins, hp, htree]
  · rw [origins, hpending, List.map_append]

theorem oneRoot_step (hs : ∃ l, s.origins = none :: l ∧ none ∉ l) :
    ∃ l, t.origins = none :: l ∧ none ∉ l := by
  obtain ⟨hold, hnew⟩ := origins_step hentries hp hpending
  obtain ⟨l, hl, hnone⟩ := hs
  rw [hold] at hl
  cases htree : t.tree.origins with
  | nil => simp [Tree.origins, hentries] at htree
  | cons o os =>
    rw [htree, List.cons_append, List.cons.injEq] at hl
    obtain ⟨rfl, rfl⟩ := hl
    refine ⟨_, by rw [hnew, htree, List.cons_append], ?_⟩
    have hadded : none ∉ (s.newPending p).map Pending.origin := by
      intro hmem
      obtain ⟨i, hi⟩ := eq_some_of_mem_newPending hmem
      cases hi
    simp only [List.mem_append, not_or] at hnone ⊢
    exact ⟨hnone.1, hadded, hnone.2⟩

theorem FiresAll.step (hn : n.HasOutputs) (hlinked : s.tree.IsLinked) (hs : FiresAll s) :
    FiresAll t := by
  intro id e he hkind
  obtain ⟨hold, hnew⟩ := origins_step hentries hp hpending
  rw [hnew, Tree.originsAt_append, Tree.originsAt_append]
  rcases Tree.entryAt_cases_of_entries_eq hentries he with he | ⟨rfl, rfl⟩
  · have hnone : Tree.originsAt id ((s.newPending p).map Pending.origin) = [] := by
      refine Tree.originsAt_eq_nil fun o ho x hx => ?_
      obtain ⟨i, rfl⟩ := eq_some_of_mem_newPending ho
      cases hx
      exact Nat.ne_of_gt (Tree.lt_size_of_entryAt he)
    rw [hnone, List.nil_append, ← Tree.originsAt_append, ← hold]
    exact hs id e he hkind
  · -- Nothing comes from a node before it is there.
    have hnone : ∀ l, (∀ o ∈ l, o ∈ s.origins) → Tree.originsAt s.tree.size l = [] := fun l hl =>
      Tree.originsAt_eq_nil fun o ho x hx =>
        Nat.ne_of_lt (lt_size_of_mem_origins hlinked (hl o ho) x hx)
    have hbefore := hnone t.tree.origins fun o ho => by simp [hold, ho]
    have hafter := hnone (rest.map Pending.origin) fun o ho => by
      rw [hold]
      exact List.mem_append_right _ ho
    rw [hbefore, hafter, map_origin_newPending hn hkind, List.nil_append, List.append_nil]
    refine Tree.originsAt_eq_self fun o ho => ?_
    obtain ⟨i, -, rfl⟩ := List.mem_map.mp ho
    exact ⟨_, rfl, rfl⟩

end Step

theorem Ruled.step (htraced : Traced root s) (hs : Ruled root s) (h : s.step? = some t) :
    Ruled root t := by
  obtain ⟨p, rest, hp, hentries, hpending⟩ := entries_of_step? h
  have hlinked := isLinked_of_step? hs.linked h
  have hext := Tree.extends_of_entries_eq hentries
  have hexpects := fun q hq => (hs.pending q hq).1.mono hext
  constructor
  case linked => exact hlinked
  case nodes =>
    intro id e he
    rcases Tree.entryAt_cases_of_entries_eq hentries he with he | ⟨-, rfl⟩
    · exact (hs.nodes id e he).mono hext
    · exact hexpects p (by simp [hp])
  case pending =>
    intro q hq
    rw [hpending, List.mem_append] at hq
    rcases hq with hq | hq
    · exact hs.expects_of_mem_newPending hentries hp hlinked hq
    · have hq : q ∈ s.pending := by simp [hp, hq]
      rw [hext.markingsOf_lineage (s.origin_lt q hq)]
      exact ⟨hexpects q hq, (hs.pending q hq).2⟩
  case revisited_iff => exact fun id e he => hs.revisited_iff_step hentries htraced he
  case oneRoot => exact oneRoot_step hentries hp hpending hs.oneRoot
  case firesAll =>
    exact fun hn => (hs.firesAll hn).step hentries hp hpending hn hs.linked

/-- Only the root comes from nowhere. -/
theorem Ruled.origin_eq_none_iff (hs : Ruled root s) {c : Nat} {k : Node cap}
    (hk : s.tree.node? c = some k) : k.origin = none ↔ c = s.tree.root := by
  obtain ⟨l, horigins, hnone⟩ := hs.oneRoot
  have hc : s.origins[c]? = some k.origin := by
    have hlength : c < s.tree.origins.length := by
      rw [Tree.origins_eq_map_origin?, List.length_map, List.length_range]
      exact Tree.lt_size_of_node? hk
    rw [origins, List.getElem?_append_left hlength, Tree.origins, List.getElem?_map,
      Array.getElem?_toList, ← Tree.entryAt_eq, Tree.entryAt_of_node? hk, Option.map_some]
  rw [horigins] at hc
  cases c with
  | zero => exact iff_of_true (Option.some.inj hc).symm rfl
  | succ c =>
    rw [List.getElem?_cons_succ] at hc
    exact iff_of_false (fun h => hnone (h ▸ List.mem_of_getElem? hc)) (Nat.succ_ne_zero c)

theorem Ruled.exists_root (hs : Ruled root s) (hnil : s.pending = []) :
    ∃ k, s.tree.node? s.tree.root = some k ∧ k.origin = none ∧ k.marking = root := by
  obtain ⟨l, horigins, -⟩ := hs.oneRoot
  have hsize : 0 < s.tree.size := by
    have hlength := congrArg List.length horigins
    simp only [origins, hnil, List.map_nil, List.append_nil, Tree.origins_eq_map_origin?,
      List.length_map, List.length_range, List.length_cons] at hlength
    exact Nat.lt_of_lt_of_eq (Nat.succ_pos _) hlength.symm
  obtain ⟨k, hk⟩ := Tree.exists_node?_iff.mpr hsize
  have horigin := (hs.origin_eq_none_iff hk).mpr rfl
  have hexpects := hs.nodes _ _ (Tree.entryAt_of_node? hk)
  exact ⟨k, hk, horigin, (horigin ▸ hexpects).eq_root⟩

/-- What a node comes from is an explored node, and the rule tells its marking. -/
theorem Ruled.exists_parent (hs : Ruled root s) {c : Nat} {k : Node cap} {o : Origin}
    (hk : s.tree.node? c = some k) (ho : k.origin = some o) :
    ∃ p tr m, s.tree.node? o.node = some p ∧ p.kind = .explored ∧
      n.transitionList[o.transition]? = some tr ∧ p.marking.fire? tr = some m ∧
      Grows (s.tree.markingsOf (s.tree.ancestors o.node).reverse) m k.marking := by
  have hexpects := hs.nodes _ _ (Tree.entryAt_of_node? hk)
  rw [ho] at hexpects
  exact hexpects.exists_parent

theorem Ruled.children_eq_nil (hs : Ruled root s) {c : Nat} {k : Node cap}
    (hk : s.tree.node? c = some k) (hkind : k.kind = .revisited) : s.tree.children c = [] := by
  rw [List.eq_nil_iff_forall_not_mem]
  intro x hx
  obtain ⟨o, ho, rfl⟩ := hs.linked.mem_children_iff.mp hx
  obtain ⟨kx, hkx, hox⟩ := Option.bind_eq_some_iff.mp ho
  obtain ⟨p, -, -, hp, hexplored, -⟩ := hs.exists_parent hkx hox
  rw [hk] at hp
  rw [← Option.some.inj hp, hkind] at hexplored
  cases hexplored

/-- What is ruled follows the rule once nothing is left to be added. -/
theorem Ruled.followsRule {initial : Marking cap} (hn : n.HasOutputs)
    (hs : Ruled (initial.resized n.placeCount) s)
    (htraced : Traced (initial.resized n.placeCount) s) (hnil : s.pending = []) :
    s.tree.FollowsRule n initial := by
  constructor
  case root =>
    obtain ⟨k, hk, horigin, hmarking⟩ := hs.exists_root hnil
    refine ⟨k, hk, horigin, ?_, fun p hp => ?_⟩ <;> rw [hmarking]
    · exact Marking.size_resized initial n.placeCount
    · exact Marking.get_resized initial hp
  case parent =>
    intro c k hk hc
    obtain ⟨o, ho⟩ := Option.ne_none_iff_exists'.mp (mt (hs.origin_eq_none_iff hk).mp hc)
    obtain ⟨p, -, -, hp, hkind, -⟩ := hs.exists_parent hk ho
    have horigin : s.tree.origin? c = some o :=
      (Tree.origin?_of_entryAt (Tree.entryAt_of_node? hk)).trans ho
    refine ⟨o, p, ho, hs.linked.origin_lt c o horigin, hp, hkind, ?_, ?_⟩
    · exact List.count_eq_one_of_mem (hs.linked.nodup_children _)
        (hs.linked.mem_children_iff.mpr ⟨o, horigin, rfl⟩)
    · intro id hid
      obtain ⟨o', ho', rfl⟩ := hs.linked.mem_children_iff.mp hid
      rw [horigin] at ho'
      rw [Option.some.inj ho']
  case revisited_iff =>
    intro c k hk
    rw [hs.revisited_iff c _ (Tree.entryAt_of_node? hk), Tree.mem_take_markings_iff]
  case leaf => exact fun c k hk hkind => hs.children_eq_nil hk hkind
  case children =>
    intro id k hk hkind
    have htree : s.tree.origins = s.origins := by simp [origins, hnil]
    rw [hs.linked.map_origin?_children, htree]
    exact hs.firesAll hn id _ (Tree.entryAt_of_node? hk) hkind
  case marking =>
    intro c k o hk ho
    obtain ⟨p, tr, m, hp, -, htr, hm, hgrows⟩ := hs.exists_parent hk ho
    exact ⟨p, tr, m, hp, htr, hm, hgrows⟩
  case contains_iff =>
    intro m
    rw [htraced.contains_iff, Tree.mem_markings_iff]

end Search

theorem exists_ruled_explore {most : Nat} (n : Net) (initial : Marking (.upTo most)) :
    ∃ s : Search (.upTo most) n, explore n initial = s.tree ∧ s.pending = [] ∧
      Search.Traced (initial.resized n.placeCount) s ∧
      Search.Ruled (initial.resized n.placeCount) s :=
  Search.exists_final
    (P := fun s => Search.Traced (initial.resized n.placeCount) s ∧
      Search.Ruled (initial.resized n.placeCount) s)
    (fun _ _ ⟨htraced, hruled⟩ h => ⟨htraced.step h, hruled.step htraced h⟩) (Search.start n initial)
    ⟨Search.traced_start n initial, Search.ruled_start n initial⟩

/-- Exploring a net builds exactly the tree that the rule describes. -/
theorem followsRule_explore {most : Nat} (places : List String)
    (transitions : List NamedTransition) (initial : Marking (.upTo most)) :
    (explore (.make places transitions) initial).FollowsRule (.make places transitions) initial := by
  obtain ⟨s, hs, hnil, htraced, hruled⟩ := exists_ruled_explore (.make places transitions) initial
  rw [hs]
  exact hruled.followsRule (Net.hasOutputs_make places transitions) htraced hnil

end Coverability

end DrawnModels
