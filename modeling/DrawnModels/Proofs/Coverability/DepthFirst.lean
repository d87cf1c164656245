import DrawnModels.Coverability.Listing
import DrawnModels.Proofs.Coverability.Rule

/-!
# The order in which trees are listed

A tree grows from one stack and is listed from another. Both times the nodes stand in the same order:
a tree is listed in the order in which its nodes were added.

Of the markings that are to be added, those on top come from later nodes. So the nodes that are
added between a node and one that comes from it come from the former themselves, or from nodes after
it. While such a tree is listed, the stack holds the nodes that were not taken yet and come from
nodes that were, and the least of them lies on top.
-/

namespace DrawnModels

theorem Net.exists_transitionName? {n : Net} {i : Nat} {t : Transition}
    (h : n.transitionList[i]? = some t) : ∃ name, n.transitionName? i = some name := by
  obtain ⟨e, he, -⟩ := Option.map_eq_some_iff.mp (List.getElem?_map ▸ h)
  refine ⟨e.1, ?_⟩
  rw [transitionName?, transitionNames, KeyedList.keys, List.getElem?_map, he, Option.map_some]

namespace Coverability

variable {cap : Capacity} {n : Net}

namespace Tree

variable {t u : Tree cap} {i : Nat}

def depth (t : Tree cap) (id : Nat) : Nat :=
  (t.ancestors id).length

/-- The nodes between two numbers come from the first of them or from nodes after it. -/
def NestedBetween (t : Tree cap) (first last : Nat) : Prop :=
  ∀ id, first < id → id < last → ∃ o, t.origin? id = some o ∧ first ≤ o.node

/-- What stands between a node and the one that it comes from is nested there. -/
def IsNested (t : Tree cap) : Prop :=
  ∀ id o, t.origin? id = some o → t.NestedBetween o.node id

/-- What stands in front of a node: the transition that led to it. -/
inductive HasArrow (n : Net) (k : Node cap) : String → Prop
  | root : k.origin = none → HasArrow n k ""
  | fired {o name} : k.origin = some o → n.transitionName? o.transition = some name →
      HasArrow n k ("--" ++ name ++ "--> ")

/-- The line of a node: two blanks for each node above it, the arrow, its number, its marking, and a
mark if the marking was in the tree already. -/
def IsLineOf (t : Tree cap) (n : Net) (id : Nat) (k : Node cap) (line : String) : Prop :=
  ∃ arrow, HasArrow n k arrow ∧
    line = .ofList (List.replicate (2 * t.depth id) ' ') ++ arrow ++ "n" ++ toString id ++ " " ++
      k.marking.labelled n.placeNames ", " ++ if k.kind = .revisited then " [repeat]" else ""

/-- The tree is listed in the order in which its nodes were added. -/
structure ListsAsAdded (t : Tree cap) (n : Net) : Prop where
  /-- A node and those above it, as many as its depth says, lead from child to parent. -/
  isChain_ancestors : ∀ id < t.size, (id :: t.ancestors id).IsChain fun child parent =>
    ∃ o, t.origin? child = some o ∧ o.node = parent
  /-- This chain ends at the root. -/
  getLast?_ancestors : ∀ id < t.size, (id :: t.ancestors id).getLast? = some t.root
  /-- The stack runs empty. -/
  ends : t.depthFirst? = some t.depthFirst
  depthFirst : t.depthFirst = (List.range t.size).map fun id => (t.depth id, id)
  /-- The text has a line for every node, at the place of its number. -/
  listing : ∃ lines, t.listing = "\n".intercalate lines ∧ lines.length = t.size ∧
    ∀ id k, t.node? id = some k → ∃ line, lines[id]? = some line ∧ t.IsLineOf n id k line

theorem IsLinked.depth_of_origin? (ht : t.IsLinked) {id : Nat} {o : Origin}
    (h : t.origin? id = some o) : t.depth id = t.depth o.node + 1 := by
  rw [depth, ht.ancestors_eq_lineage, h]
  rfl

theorem IsLinked.isChain_ancestors (ht : t.IsLinked) (id : Nat) :
    (id :: t.ancestors id).IsChain fun child parent =>
      ∃ o, t.origin? child = some o ∧ o.node = parent := by
  induction id using Nat.strongRecOn with
  | _ id ih =>
    rw [ht.ancestors_eq_lineage]
    cases ho : t.origin? id with
    | none => exact .singleton id
    | some o => exact .cons_cons ⟨o, ho, rfl⟩ (ih o.node (ht.origin_lt id o ho))

/-- Where only the root comes from nowhere, every chain of parents ends there. -/
theorem IsLinked.getLast?_ancestors (ht : t.IsLinked)
    (hroot : ∀ id < t.size, t.origin? id = none ↔ id = t.root) {id : Nat} (hid : id < t.size) :
    (id :: t.ancestors id).getLast? = some t.root := by
  induction id using Nat.strongRecOn with
  | _ id ih =>
    rw [ht.ancestors_eq_lineage]
    cases ho : t.origin? id with
    | none => exact congrArg some ((hroot id hid).mp ho)
    | some o =>
      have hlt := ht.origin_lt id o ho
      rw [lineage, List.getLast?_cons_cons]
      exact ih o.node hlt (Nat.lt_trans hlt hid)

/-! ### Listing nested trees -/

/-- The nodes from number `i` on that come from nodes with smaller numbers or from nowhere, in
ascending order. -/
structure IsFrontier (t : Tree cap) (i : Nat) (ids : List Nat) : Prop where
  increasing : ids.Pairwise (· < ·)
  mem_iff : ∀ id, id ∈ ids ↔ i ≤ id ∧ id < t.size ∧ ∀ o ∈ t.origin? id, o.node < i

namespace IsFrontier

variable {ids : List Nat}

theorem eq_nil (h : t.IsFrontier t.size ids) : ids = [] := by
  rw [List.eq_nil_iff_forall_not_mem]
  intro id hid
  obtain ⟨hle, hlt, -⟩ := (h.mem_iff id).mp hid
  omega

/-- The least number that was not taken lies on top. -/
theorem exists_eq_cons (ht : t.IsLinked) (h : t.IsFrontier i ids) (hi : i < t.size) :
    ∃ rest, ids = i :: rest := by
  have hmem : i ∈ ids := (h.mem_iff i).mpr ⟨Nat.le_refl i, hi, ht.origin_lt i⟩
  cases ids with
  | nil => cases hmem
  | cons id rest =>
    obtain ⟨hle, -⟩ := (h.mem_iff id).mp List.mem_cons_self
    have hfirst : id = i := by
      rcases List.mem_cons.mp hmem with rfl | hrest
      · rfl
      · have := (List.pairwise_cons.mp h.increasing).1 i hrest
        omega
    exact ⟨rest, by rw [hfirst]⟩

/-- When a node is taken, its children go in front of what is left. -/
theorem step {rest : List Nat} (ht : t.IsLinked) (hnested : t.IsNested)
    (h : t.IsFrontier i (i :: rest)) : t.IsFrontier (i + 1) (t.children i ++ rest) := by
  obtain ⟨hbelow, hrest⟩ := List.pairwise_cons.mp h.increasing
  have hmem : ∀ id, id ∈ rest ↔ i < id ∧ id < t.size ∧ ∀ o ∈ t.origin? id, o.node < i := by
    intro id
    constructor
    · intro hid
      obtain ⟨-, hlt, horigin⟩ := (h.mem_iff id).mp (List.mem_cons_of_mem i hid)
      exact ⟨hbelow id hid, hlt, horigin⟩
    · rintro ⟨hi, hlt, horigin⟩
      have hid := (h.mem_iff id).mpr ⟨Nat.le_of_lt hi, hlt, horigin⟩
      exact (List.mem_cons.mp hid).resolve_left (Nat.ne_of_gt hi)
  constructor
  case increasing =>
    refine List.pairwise_append.mpr ⟨ht.pairwise_children i, hrest, ?_⟩
    intro child hchild id hid
    obtain ⟨o, ho, rfl⟩ := ht.mem_children_iff.mp hchild
    obtain ⟨hi, -, horigin⟩ := (hmem id).mp hid
    -- A node in front of the child would come from the same node or from a later one.
    by_contra hle
    have hne : id ≠ child := fun heq => Nat.lt_irrefl o.node (horigin o (heq ▸ ho))
    obtain ⟨o', ho', hle'⟩ := hnested child o ho id hi (by omega)
    have := horigin o' ho'
    omega
  case mem_iff =>
    intro id
    rw [List.mem_append, hmem, ht.mem_children_iff]
    constructor
    · rintro (⟨o, ho, rfl⟩ | ⟨hi, hlt, horigin⟩)
      · refine ⟨ht.origin_lt id o ho, lt_size_of_origin? ho, fun o' ho' => ?_⟩
        rw [ho] at ho'
        cases ho'
        exact Nat.lt_succ_self _
      · exact ⟨hi, hlt, fun o ho => Nat.lt_succ_of_lt (horigin o ho)⟩
    · rintro ⟨hi, hlt, horigin⟩
      cases ho : t.origin? id with
      | none => exact Or.inr ⟨hi, hlt, by simp⟩
      | some o =>
        rcases Nat.lt_succ_iff_lt_or_eq.mp (horigin o ho) with hlt' | heq
        · exact Or.inr ⟨hi, hlt, by simpa using hlt'⟩
        · exact Or.inl ⟨o, rfl, heq⟩

/-- A nested tree is listed from there by ascending numbers. -/
theorem unstack?_eq (ht : t.IsLinked) (hnested : t.IsNested) (h : t.IsFrontier i ids)
    (hi : i ≤ t.size) (order : Array (Nat × Nat)) :
    (t.unstack? order (ids.map fun id => (t.depth id, id))).map Array.toList =
      some (order.toList ++ (List.range' i (t.size - i)).map fun id => (t.depth id, id)) := by
  induction hleft : t.size - i generalizing i ids order with
  | zero =>
    have hi : i = t.size := by omega
    subst hi
    rw [h.eq_nil, List.map_nil, unstack?, List.range'_zero, List.map_nil, List.append_nil]
    rfl
  | succ left ih =>
    obtain ⟨rest, rfl⟩ := h.exists_eq_cons ht (by omega)
    have hchildren : (t.children i).map (t.depth i + 1, ·) =
        (t.children i).map fun id => (t.depth id, id) := by
      apply List.map_congr_left
      intro child hchild
      obtain ⟨o, ho, rfl⟩ := ht.mem_children_iff.mp hchild
      rw [ht.depth_of_origin? ho]
    rw [List.map_cons, unstack?, hchildren, ← List.map_append,
      ih (h.step ht hnested) (by omega) _ (by omega), Array.toList_push, List.append_assoc,
      List.range'_succ, List.map_cons, List.singleton_append]

end IsFrontier

theorem depthFirst?_eq (ht : t.IsLinked) (hnested : t.IsNested)
    (hroot : ∀ id < t.size, t.origin? id = none ↔ id = t.root) :
    t.depthFirst? = some ((List.range t.size).map fun id => (t.depth id, id)) := by
  have hempty : t.depth t.root = 0 := by
    have hnone : t.origin? t.root = none :=
      Option.eq_none_iff_forall_not_mem.mpr fun o ho =>
        Nat.not_lt_zero _ (ht.origin_lt t.root o ho)
    rw [depth, ht.ancestors_eq_lineage, hnone]
    rfl
  have hstart : t.IsFrontier 0 (if t.size = 0 then [] else [t.root]) := by
    constructor
    case increasing => split <;> simp
    case mem_iff =>
      intro id
      have hnone : (∀ o ∈ t.origin? id, o.node < 0) ↔ t.origin? id = none := by
        simp [Option.eq_none_iff_forall_not_mem]
      rw [hnone]
      constructor
      · intro hid
        split at hid
        · cases hid
        · rename_i hsize
          rw [List.mem_singleton] at hid
          subst hid
          have hlt : t.root < t.size := Nat.pos_of_ne_zero hsize
          exact ⟨Nat.zero_le _, hlt, (hroot _ hlt).mpr rfl⟩
      · rintro ⟨-, hlt, hid⟩
        rw [if_neg (Nat.ne_of_gt (Nat.zero_lt_of_lt hlt)), List.mem_singleton]
        exact (hroot id hlt).mp hid
  have hlist := hstart.unstack?_eq ht hnested (Nat.zero_le _) #[]
  rw [Nat.sub_zero, ← List.range_eq_range', List.nil_append] at hlist
  rw [← hlist, depthFirst?]
  congr 2
  split
  · rfl
  · rw [List.map_singleton, hempty]

theorem filterMap_range_getElem? {α β : Type} (l : List α) (f : Nat → α → β) :
    ((List.range l.length).filterMap fun i => l[i]?.map (f i)) = l.mapIdx f := by
  induction l generalizing f with
  | nil => rfl
  | cons a l ih =>
    rw [List.length_cons, List.range_succ_eq_map, List.mapIdx_cons, ← ih, List.filterMap_cons,
      List.filterMap_map]
    rfl

theorem lines_eq (h : t.depthFirst = (List.range t.size).map fun id => (t.depth id, id)) :
    t.lines = t.nodes.toList.mapIdx fun id k => t.line (t.depth id) id k := by
  rw [lines, h, List.filterMap_map, ← filterMap_range_getElem?]
  simp only [Array.length_toList, Array.getElem?_toList]
  rfl

theorem length_lines (h : t.depthFirst = (List.range t.size).map fun id => (t.depth id, id)) :
    t.lines.length = t.size := by
  rw [lines_eq h, List.length_mapIdx, Array.length_toList, size]

theorem getElem?_lines (h : t.depthFirst = (List.range t.size).map fun id => (t.depth id, id))
    {id : Nat} {k : Node cap} (hk : t.node? id = some k) :
    t.lines[id]? = some (t.line (t.depth id) id k) := by
  rw [lines_eq h, List.getElem?_mapIdx, Array.getElem?_toList]
  exact congrArg (Option.map _) hk

theorem hasArrow_arrow {n : Net} {k : Node cap} (hnames : t.transitions = n.transitionNames)
    (h : ∀ o, k.origin = some o → ∃ name, n.transitionName? o.transition = some name) :
    HasArrow n k (t.arrow k) := by
  rw [arrow]
  cases ho : k.origin with
  | none => exact .root ho
  | some o =>
    obtain ⟨name, hname⟩ := h o ho
    have hname' : t.transitionName? o.transition = some name := by
      rw [transitionName?, hnames]
      exact hname
    rw [Option.bind_some, hname']
    exact .fired ho hname

theorem isLineOf_line {n : Net} {id : Nat} {k : Node cap} (hplaces : t.places = n.placeNames)
    (harrow : HasArrow n k (t.arrow k)) : t.IsLineOf n id k (t.line (t.depth id) id k) := by
  refine ⟨t.arrow k, harrow, ?_⟩
  rw [line, hplaces]
  cases k.kind <;> rfl

/-! ### While the tree grows -/

theorem NestedBetween.push {e : Entry cap} (h : u.entries = t.entries.push e) {first last : Nat}
    (hlast : last ≤ t.size) (ht : t.NestedBetween first last) : u.NestedBetween first last := by
  intro id hfirst hid
  rw [origin?_of_entries_eq h, if_neg (Nat.ne_of_lt (Nat.lt_of_lt_of_le hid hlast))]
  exact ht id hfirst hid

end Tree

namespace Search

variable {s t : Search cap n}

/-- The markings that are to be added come from later nodes the nearer they are to the top, and the
nodes that were added after those nodes are nested there. -/
structure Nests (s : Search cap n) : Prop where
  tree : s.tree.IsNested
  pending : ∀ p ∈ s.pending, ∀ o ∈ p.origin, s.tree.NestedBetween o.node s.tree.size
  descending : s.pending.Pairwise fun p q => ∀ o ∈ q.origin, ∃ o', p.origin = some o' ∧
    o.node ≤ o'.node

theorem nests_start (n : Net) (initial : Marking cap) : Nests (start n initial) where
  tree id o ho := absurd (Tree.lt_size_of_origin? ho) (Nat.not_lt_zero id)
  pending p hp := by
    rw [List.mem_singleton.mp hp]
    exact fun o ho => nomatch ho
  descending := List.pairwise_singleton _ _

theorem origin_of_mem_newPending {p q : Pending cap n.placeCount} (hq : q ∈ s.newPending p) :
    ∃ i, q.origin = some ⟨s.tree.size, i⟩ :=
  eq_some_of_mem_newPending (List.mem_map_of_mem hq)

theorem Nests.step (hs : Nests s) (h : s.step? = some t) : Nests t := by
  obtain ⟨p, rest, hp, hentries, hpending⟩ := entries_of_step? h
  have hmem : p ∈ s.pending := by simp [hp]
  have hsize := Tree.size_of_entries_eq hentries
  have horigin := Tree.origin?_of_entries_eq hentries
  obtain ⟨hnext, hrest⟩ := List.pairwise_cons.mp (hp ▸ hs.descending)
  constructor
  case tree =>
    intro id o ho
    rw [horigin] at ho
    split at ho
    · rename_i hid
      exact hid ▸ (hs.pending p hmem o ho).push hentries (Nat.le_refl _)
    · exact (hs.tree id o ho).push hentries (Nat.le_of_lt (Tree.lt_size_of_origin? ho))
  case pending =>
    intro q hq o ho
    rw [hpending, List.mem_append] at hq
    rcases hq with hq | hq
    · obtain ⟨i, hi⟩ := origin_of_mem_newPending hq
      rw [hi] at ho
      cases ho
      intro id hfirst hlast
      have hlt : s.tree.size < id := hfirst
      omega
    · intro id hfirst hlast
      rcases Nat.lt_succ_iff_lt_or_eq.mp (hsize ▸ hlast) with hid | rfl
      · have hold := (hs.pending q (by simp [hp, hq]) o ho).push hentries (Nat.le_refl _)
        exact hold id hfirst hid
      · rw [horigin, if_pos rfl]
        exact hnext q hq o ho
  case descending =>
    rw [hpending]
    refine List.pairwise_append.mpr ⟨?_, hrest, ?_⟩
    · refine List.pairwise_of_forall_mem_list fun q hq r hr o ho => ?_
      obtain ⟨i, hi⟩ := origin_of_mem_newPending hr
      obtain ⟨j, hj⟩ := origin_of_mem_newPending hq
      rw [hi] at ho
      cases ho
      exact ⟨_, hj, Nat.le_refl _⟩
    · intro q hq r hr o ho
      obtain ⟨i, hi⟩ := origin_of_mem_newPending hq
      exact ⟨_, hi, Nat.le_of_lt (s.origin_lt r (by simp [hp, hr]) o ho)⟩

theorem Ruled.origin?_eq_none_iff {root : Marking cap} (hs : Ruled root s) {id : Nat}
    (hid : id < s.tree.size) : s.tree.origin? id = none ↔ id = s.tree.root := by
  obtain ⟨k, hk⟩ := Tree.exists_node?_iff.mpr hid
  rw [Tree.origin?_of_entryAt (Tree.entryAt_of_node? hk)]
  exact hs.origin_eq_none_iff hk

end Search

theorem isNested_explore {most : Nat} (n : Net) (initial : Marking (.upTo most)) :
    (explore n initial).IsNested := by
  obtain ⟨s, hs, -, hnests⟩ := Search.exists_final (fun _ _ hs h => hs.step h)
    (Search.start n initial) (Search.nests_start n initial)
  rw [explore, hs]
  exact hnests.tree

/-- A coverability tree is listed in the order in which its nodes were added. -/
theorem listsAsAdded_explore {most : Nat} (n : Net) (initial : Marking (.upTo most)) :
    (explore n initial).ListsAsAdded n := by
  obtain ⟨s, hs, -, -, hruled⟩ := exists_ruled_explore n initial
  have hnested := isNested_explore n initial
  obtain ⟨hplaces, htransitions⟩ := names_explore n initial
  rw [hs] at hnested hplaces htransitions ⊢
  have hnone : ∀ id < s.tree.size, s.tree.origin? id = none ↔ id = s.tree.root :=
    fun _ => hruled.origin?_eq_none_iff
  have hlist := Tree.depthFirst?_eq hruled.linked hnested hnone
  have hdepthFirst := congrArg (Option.getD · []) hlist
  constructor
  case isChain_ancestors => exact fun id _ => hruled.linked.isChain_ancestors id
  case getLast?_ancestors => exact fun _ => hruled.linked.getLast?_ancestors hnone
  case ends => rw [Tree.depthFirst, hlist, Option.getD_some]
  case depthFirst => exact hdepthFirst
  case listing =>
    refine ⟨s.tree.lines, rfl, Tree.length_lines hdepthFirst, fun id k hk => ?_⟩
    refine ⟨_, Tree.getElem?_lines hdepthFirst hk, Tree.isLineOf_line hplaces ?_⟩
    refine Tree.hasArrow_arrow htransitions fun o ho => ?_
    obtain ⟨-, tr, -, -, -, htr, -⟩ := hruled.exists_parent hk ho
    exact Net.exists_transitionName? htr

end Coverability

end DrawnModels
