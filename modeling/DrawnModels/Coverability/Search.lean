import DrawnModels.Coverability.Tree

/-!
# Building coverability trees

The tree grows from a stack of markings that are to be added. A marking that was visited before
becomes a leaf. Any other marking is visited and explored: every transition that is enabled fires,
and the markings reached this way go on the stack, so that the one reached by the last transition is
added next.

A marking that is reached from a node is compared with the markings strictly above that node. The
first of them, from the root, that it strictly covers makes it grow to ω on every place on which it
exceeds it.

With limited counts there are finitely many markings of a net, so only finitely many are visited and
the stack runs empty.
-/

namespace DrawnModels

namespace Coverability

/-- A marking that is to be added to the tree. -/
structure Pending (cap : Capacity) (places : Nat) where
  marking : Marking cap
  origin : Option Origin
  /-- The markings from the node that it comes from up to the root. -/
  path : List (Marking cap)
  size_eq : marking.size = places
deriving DecidableEq

namespace Pending

variable {cap : Capacity} {places : Nat}

/-- The oldest of the given markings, nearest first, that `m` strictly covers. -/
def oldestCovered? (path : List (Marking cap)) (m : Marking cap) : Option (Marking cap) :=
  path.reverse.find? m.strictlyCovers

/-- A marking with ω where it has grown over the oldest marking above that it strictly covers. -/
def grown (path : List (Marking cap)) (m : Marking cap) : Marking cap :=
  match oldestCovered? path m with
  | some old => m.accelerate old
  | none => m

theorem size_grown (path : List (Marking cap)) (m : Marking cap) :
    (grown path m).size = m.size := by
  unfold grown
  split
  · exact Marking.size_accelerate _ _
  · rfl

/-- What becomes of a pending marking, added as node `id`, when transition number `i` fires. -/
def successor? (p : Pending cap places) (id i : Nat) (t : Transition) :
    Option (Pending cap places) :=
  if p.marking.enables t then
    match h : p.marking.fire? t with
    | some m => some {
        marking := grown p.path m
        origin := some ⟨id, i⟩
        path := p.marking :: p.path
        size_eq := by rw [size_grown, Marking.size_of_fire? h, p.size_eq] }
    | none => none
  else none

theorem node_of_successor? {p s : Pending cap places} {id i : Nat} {t : Transition}
    (h : p.successor? id i t = some s) : s.origin = some ⟨id, i⟩ := by
  unfold successor? at h
  split at h
  · split at h
    · cases h; rfl
    · cases h
  · cases h

/-- The successors of a pending marking, added as node `id`, by ascending transition. -/
def successors (p : Pending cap places) (n : Net) (id : Nat) : List (Pending cap places) :=
  n.transitionList.zipIdx.filterMap fun e => p.successor? id e.2 e.1

theorem origin_of_mem_successors {p s : Pending cap places} {n : Net} {id : Nat}
    (h : s ∈ p.successors n id) : ∃ i, s.origin = some ⟨id, i⟩ := by
  obtain ⟨e, _, he⟩ := List.mem_filterMap.mp h
  exact ⟨_, node_of_successor? he⟩

end Pending

/-- A tree that is being built. -/
structure Search (cap : Capacity) (n : Net) where
  tree : Tree cap
  /-- The markings that are to be added, the next one in front. -/
  pending : List (Pending cap n.placeCount)
  origin_lt : ∀ p ∈ pending, ∀ o ∈ p.origin, o.node < tree.size
deriving DecidableEq

namespace Search

variable {cap : Capacity} {n : Net}

def start (n : Net) (initial : Marking cap) : Search cap n where
  tree := .empty n
  pending := [⟨initial.resized n.placeCount, none, [], Marking.size_resized _ _⟩]
  origin_lt p hp o ho := by
    rw [List.mem_singleton.mp hp] at ho
    cases ho

def addLeaf (s : Search cap n) (p : Pending cap n.placeCount) (rest : List (Pending cap n.placeCount))
    (h : s.pending = p :: rest) : Search cap n where
  tree := s.tree.push ⟨p.marking, .revisited, p.origin⟩ (s.origin_lt p (by simp [h]))
  pending := rest
  origin_lt q hq o ho := by
    rw [Tree.size_push]
    exact Nat.lt_succ_of_lt (s.origin_lt q (by simp [h, hq]) o ho)

/-- Adds the next marking, which is visited by that, and puts its successors on the stack. -/
def addExplored (s : Search cap n) (p : Pending cap n.placeCount)
    (rest : List (Pending cap n.placeCount)) (h : s.pending = p :: rest) : Search cap n where
  tree := (s.tree.push ⟨p.marking, .explored, p.origin⟩
    (s.origin_lt p (by simp [h]))).visit p.marking
  pending := (p.successors n s.tree.size).reverse ++ rest
  origin_lt q hq o ho := by
    rw [Tree.size_visit, Tree.size_push]
    rcases List.mem_append.mp hq with hq | hq
    · obtain ⟨i, hi⟩ := Pending.origin_of_mem_successors (List.mem_reverse.mp hq)
      rw [hi] at ho
      cases ho
      exact Nat.lt_succ_self _
    · exact Nat.lt_succ_of_lt (s.origin_lt q (by simp [h, hq]) o ho)

def step? (s : Search cap n) : Option (Search cap n) :=
  match h : s.pending with
  | [] => none
  | p :: rest =>
    if s.tree.contains p.marking then some (s.addLeaf p rest h)
    else some (s.addExplored p rest h)

/-! ### Progress -/

def allTokens (most : Nat) : List (Tokens (.upTo most)) :=
  .omega :: (List.finRange (most + 1)).map fun (i : Fin (most + 1)) =>
    .finite ⟨i.val, Nat.le_of_lt_succ i.isLt⟩

theorem mem_allTokens {most : Nat} (k : Tokens (.upTo most)) : k ∈ allTokens most := by
  cases k with
  | omega => exact List.mem_cons_self
  | finite c =>
    have hc : c.val < most + 1 := Nat.lt_succ_of_le c.allowed
    exact List.mem_cons_of_mem _ (List.mem_map.mpr ⟨⟨c.val, hc⟩, List.mem_finRange _, rfl⟩)

/-- All markings of a number of places with counts up to `most`. -/
def allMarkings (most : Nat) : Nat → List (Marking (.upTo most))
  | 0 => [.empty]
  | places + 1 =>
    (allTokens most).flatMap fun k => (allMarkings most places).map fun m => ⟨k :: m.counts⟩

theorem mem_allMarkings {most : Nat} (m : Marking (.upTo most)) :
    m ∈ allMarkings most m.size := by
  obtain ⟨counts⟩ := m
  induction counts with
  | nil => exact List.mem_singleton.mpr rfl
  | cons k counts ih =>
    refine List.mem_flatMap.mpr ⟨k, mem_allTokens k, ?_⟩
    exact List.mem_map.mpr ⟨⟨counts⟩, ih, rfl⟩

/-- How many markings of the net have not been visited. -/
def unseen {most : Nat} (s : Search (.upTo most) n) : Nat :=
  ((allMarkings most n.placeCount).filter fun m => !s.tree.contains m).length

theorem length_filter_lt {α : Type} {p q : α → Bool} {l : List α} {a : α} (ha : a ∈ l)
    (hp : p a = true) (hq : q a = false) (hqp : ∀ b, q b = true → p b = true) :
    (l.filter q).length < (l.filter p).length := by
  have : l.filter q = (l.filter p).filter q := by
    rw [List.filter_filter]
    congr 1
    funext b
    cases hb : q b with
    | false => simp
    | true => simp [hqp b hb]
  rw [this]
  refine List.length_filter_lt_length_iff_exists.mpr ⟨a, List.mem_filter.mpr ⟨ha, hp⟩, ?_⟩
  simp [hq]

theorem lex_lt_of_step? {most : Nat} {s t : Search (.upTo most) n} (h : s.step? = some t) :
    Prod.Lex (· < ·) (· < ·) (t.unseen, t.pending.length) (s.unseen, s.pending.length) := by
  unfold step? at h
  split at h
  · cases h
  · rename_i p rest hp
    split at h
    · cases h
      exact Prod.Lex.right _ (by simp [addLeaf, hp])
    · rename_i hc
      cases h
      refine Prod.Lex.left _ _ (length_filter_lt (a := p.marking) ?_ ?_ ?_ ?_)
      · have := mem_allMarkings p.marking
        rwa [p.size_eq] at this
      · simpa using hc
      · simp [addExplored, Tree.contains_visit]
      · intro m hm
        simp only [addExplored, Bool.not_eq_true', ← Bool.not_eq_true, Tree.contains_visit, not_or,
          Tree.contains_push] at hm ⊢
        exact hm.2

def run {most : Nat} (s : Search (.upTo most) n) : Tree (.upTo most) :=
  match _h : s.step? with
  | none => s.tree
  | some t => t.run
termination_by (s.unseen, s.pending.length)
decreasing_by exact lex_lt_of_step? _h

end Search

/-- The coverability tree of a net from an initial marking. Places that the marking leaves out are
empty. -/
def explore {most : Nat} (n : Net) (initial : Marking (.upTo most)) : Tree (.upTo most) :=
  (Search.start n initial).run

end Coverability

end DrawnModels
