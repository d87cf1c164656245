import DrawnModels.Coverability.Tree
import Mathlib.Data.List.Basic

/-!
# Parents and children in coverability trees

A node that is added is recorded among the children of the node that it comes from, behind those that
were added before. So the children of a node are at any time the nodes that come from it, in the order
of their numbers. Nodes come from nodes with smaller numbers, so that going from a node to the one that
it comes from, and on from there, leads to the root. As long as a tree grows, what was above a node
stays above it.
-/

namespace DrawnModels

namespace Coverability

namespace Tree

variable {cap : Capacity} {t u : Tree cap} {e : Entry cap} {id : Nat}

/-! ### Entries -/

def entryAt (t : Tree cap) (id : Nat) : Option (Entry cap) :=
  (t.node? id).map Node.toEntry

def entries (t : Tree cap) : Array (Entry cap) :=
  t.nodes.map Node.toEntry

def origins (t : Tree cap) : List (Option Origin) :=
  t.entries.toList.map Entry.origin

theorem entryAt_eq (t : Tree cap) (id : Nat) : t.entryAt id = t.entries[id]? := by
  rw [entryAt, entries, Array.getElem?_map, node?]

theorem entryAt_of_node? {k : Node cap} (h : t.node? id = some k) : t.entryAt id = some k.toEntry := by
  rw [entryAt, h, Option.map_some]

theorem size_entries (t : Tree cap) : t.entries.size = t.size := by
  rw [entries, Array.size_map, size]

theorem markings_eq (t : Tree cap) : t.markings = t.entries.toList.map Entry.marking := by
  rw [markings, entries, Array.toList_map, List.map_map]
  rfl

theorem origin?_eq_bind (t : Tree cap) (id : Nat) :
    t.origin? id = (t.entryAt id).bind Entry.origin := by
  rw [origin?, entryAt, Option.bind_map]
  rfl

theorem origin?_of_entryAt (h : t.entryAt id = some e) : t.origin? id = e.origin := by
  rw [origin?_eq_bind, h, Option.bind_some]

theorem exists_node?_iff : (∃ k, t.node? id = some k) ↔ id < t.size := by
  rw [node?, size, ← Option.isSome_iff_exists, isSome_getElem?]

theorem lt_size_of_node? {k : Node cap} (h : t.node? id = some k) : id < t.size :=
  exists_node?_iff.mp ⟨k, h⟩

theorem exists_node?_of_entryAt (h : t.entryAt id = some e) :
    ∃ k, t.node? id = some k ∧ k.toEntry = e :=
  Option.map_eq_some_iff.mp h

theorem lt_size_of_entryAt (h : t.entryAt id = some e) : id < t.size := by
  obtain ⟨k, hk, -⟩ := exists_node?_of_entryAt h
  exact lt_size_of_node? hk

theorem lt_size_of_mem_children {child : Nat} (h : child ∈ t.children id) : id < t.size := by
  unfold children at h
  split at h
  · rename_i k hk
    exact lt_size_of_node? hk
  · cases h

theorem lt_size_of_origin? {o : Origin} (h : t.origin? id = some o) : id < t.size := by
  obtain ⟨k, hk, -⟩ := Option.bind_eq_some_iff.mp h
  exact lt_size_of_node? hk

theorem mem_markings_iff {m : Marking cap} :
    m ∈ t.markings ↔ ∃ id k, t.node? id = some k ∧ k.marking = m := by
  simp only [markings, List.mem_map, Array.mem_toList_iff, Array.mem_iff_getElem?, node?]
  constructor
  · rintro ⟨k, ⟨id, hid⟩, hk⟩
    exact ⟨id, k, hid, hk⟩
  · rintro ⟨id, k, hid, hk⟩
    exact ⟨k, ⟨id, hid⟩, hk⟩

theorem mem_take_markings_iff {m : Marking cap} :
    m ∈ t.markings.take id ↔ ∃ b < id, ∃ k, t.node? b = some k ∧ k.marking = m := by
  simp only [List.mem_iff_getElem?, List.getElem?_take, markings, List.getElem?_map,
    Array.getElem?_toList, Option.ite_none_right_eq_some, Option.map_eq_some_iff, node?]

theorem origins_eq_map_origin? (t : Tree cap) : t.origins = (List.range t.size).map t.origin? := by
  apply List.ext_getElem?
  intro id
  rw [origins, List.getElem?_map, Array.getElem?_toList, ← entryAt_eq, List.getElem?_map]
  by_cases hid : id < t.size
  · obtain ⟨k, hk⟩ := exists_node?_iff.mpr hid
    rw [List.getElem?_range hid, Option.map_some, origin?_eq_bind, entryAt_of_node? hk,
      Option.map_some, Option.bind_some]
  · have hnone : t.entryAt id = none := by
      rw [entryAt_eq, Array.getElem?_eq_none_iff, size_entries]
      exact Nat.le_of_not_lt hid
    rw [hnone, List.getElem?_eq_none (by simpa using hid)]
    rfl

/-! ### Adding nodes -/

section Push

variable (h : ∀ o ∈ e.origin, o.node < t.size)

theorem getElem?_adopting (t : Tree cap) (origin : Option Origin) (id : Nat) :
    (t.adopting origin)[id]? = (t.node? id).map fun k =>
      if origin.any fun o => o.node = id then k.addChild t.size else k := by
  cases origin with
  | none => simp [adopting, node?]
  | some o =>
    rw [adopting, Array.getElem?_modify, Option.any_some, node?]
    by_cases hid : o.node = id <;> simp [hid]

theorem node?_push (id : Nat) : (t.push e h).node? id =
    if id = t.size then some ⟨e, []⟩
    else (t.node? id).map fun k =>
      if e.origin.any fun o => o.node = id then k.addChild t.size else k := by
  rw [node?, push, Array.getElem?_push, size_adopting, getElem?_adopting]

theorem entryAt_push (id : Nat) :
    (t.push e h).entryAt id = if id = t.size then some e else t.entryAt id := by
  rw [entryAt, node?_push, entryAt]
  split
  · rfl
  · rw [Option.map_map]
    congr 1
    funext k
    simp only [Function.comp_apply]
    split <;> rfl

theorem entries_push : (t.push e h).entries = t.entries.push e := by
  apply Array.ext_getElem?
  intro id
  rw [← entryAt_eq, entryAt_push, entryAt_eq, Array.getElem?_push, size_entries]

theorem markings_push : (t.push e h).markings = t.markings ++ [e.marking] := by
  rw [markings_eq, entries_push, Array.toList_push, List.map_append, markings_eq]
  rfl

theorem origin?_push (id : Nat) :
    (t.push e h).origin? id = if id = t.size then e.origin else t.origin? id := by
  rw [origin?_eq_bind, entryAt_push, origin?_eq_bind]
  split <;> rfl

/-- A node becomes the last child of the one that it comes from. -/
theorem children_push (id : Nat) : (t.push e h).children id =
    t.children id ++ if e.origin.any fun o => o.node = id then [t.size] else [] := by
  have hlt : (e.origin.any fun o => o.node = id) = true → id < t.size := by
    intro hany
    obtain ⟨o, ho, hid⟩ := (Option.any_eq_true _ _).mp hany
    exact of_decide_eq_true hid ▸ h o ho
  unfold children
  rw [node?_push]
  by_cases hid : id < t.size
  · obtain ⟨k, hk⟩ := exists_node?_iff.mpr hid
    rw [if_neg (Nat.ne_of_lt hid), hk, Option.map_some]
    cases e.origin.any fun o => o.node = id with
    | true => rfl
    | false => exact (List.append_nil k.children).symm
  · have hnone : t.node? id = none := by
      rw [Option.eq_none_iff_forall_ne_some]
      exact fun k hk => hid (lt_size_of_node? hk)
    rw [if_neg (mt hlt hid), hnone, Option.map_none]
    by_cases heq : id = t.size
    · rw [if_pos heq]
      rfl
    · rw [if_neg heq]
      rfl

end Push

/-! ### Links between nodes -/

/-- Nodes come from nodes with smaller numbers, and the children of a node are the nodes that come
from it, in the order in which they were added. -/
structure IsLinked (t : Tree cap) : Prop where
  origin_lt : ∀ c o, t.origin? c = some o → o.node < c
  children_eq : ∀ id, t.children id =
    (List.range t.size).filter fun c => (t.origin? c).any fun o => o.node = id

theorem isLinked_empty (n : Net) : (empty n : Tree cap).IsLinked where
  origin_lt _ _ ho := absurd (lt_size_of_origin? ho) (Nat.not_lt_zero _)
  children_eq _ := rfl

theorem IsLinked.push (ht : t.IsLinked) (h : ∀ o ∈ e.origin, o.node < t.size) :
    (t.push e h).IsLinked where
  origin_lt c o ho := by
    rw [origin?_push] at ho
    split at ho
    · rename_i hc
      exact hc ▸ h o ho
    · exact ht.origin_lt c o ho
  children_eq id := by
    rw [children_push, ht.children_eq, size_push, List.range_succ, List.filter_append]
    congr 1
    · refine List.filter_congr fun c hc => ?_
      rw [origin?_push, if_neg (Nat.ne_of_lt (List.mem_range.mp hc))]
    · rw [List.filter_singleton, origin?_push, if_pos rfl, Bool.cond_eq_ite]

theorem IsLinked.visit (ht : t.IsLinked) (m : Marking cap) : (t.visit m).IsLinked where
  origin_lt := ht.origin_lt
  children_eq := ht.children_eq

namespace IsLinked

theorem mem_children_iff (ht : t.IsLinked) {c : Nat} :
    c ∈ t.children id ↔ ∃ o, t.origin? c = some o ∧ o.node = id := by
  rw [ht.children_eq, List.mem_filter, List.mem_range, Option.any_eq_true]
  simp only [decide_eq_true_eq]
  exact and_iff_right_of_imp fun ⟨o, ho, _⟩ => lt_size_of_origin? ho

theorem pairwise_children (ht : t.IsLinked) (id : Nat) : (t.children id).Pairwise (· < ·) := by
  rw [ht.children_eq]
  exact List.pairwise_lt_range.filter _

theorem nodup_children (ht : t.IsLinked) (id : Nat) : (t.children id).Nodup :=
  (ht.pairwise_children id).imp Nat.ne_of_lt

end IsLinked

/-- Those of the given origins that name a node. -/
def originsAt (id : Nat) (origins : List (Option Origin)) : List (Option Origin) :=
  origins.filter fun o => o.any fun o => o.node = id

theorem originsAt_append (id : Nat) (l l' : List (Option Origin)) :
    originsAt id (l ++ l') = originsAt id l ++ originsAt id l' :=
  List.filter_append _ _

theorem originsAt_eq_nil {l : List (Option Origin)} (h : ∀ o ∈ l, ∀ x ∈ o, x.node ≠ id) :
    originsAt id l = [] := by
  rw [originsAt, List.filter_eq_nil_iff]
  intro o ho hany
  obtain ⟨x, hx, hid⟩ := Option.any_eq_true _ _ |>.mp hany
  exact h o ho x hx (of_decide_eq_true hid)

theorem originsAt_eq_self {l : List (Option Origin)} (h : ∀ o ∈ l, ∃ x, o = some x ∧ x.node = id) :
    originsAt id l = l := by
  rw [originsAt, List.filter_eq_self]
  intro o ho
  obtain ⟨x, rfl, hx⟩ := h o ho
  exact decide_eq_true hx

theorem IsLinked.map_origin?_children (ht : t.IsLinked) (id : Nat) :
    (t.children id).map t.origin? = originsAt id t.origins := by
  rw [originsAt, origins_eq_map_origin?, List.filter_map, ht.children_eq]
  rfl

/-! ### Chains of parents -/

/-- The nodes above a node, the nearest first, as far as their numbers get smaller. -/
def ancestors (t : Tree cap) (id : Nat) : List Nat :=
  match t.origin? id with
  | none => []
  | some o => if o.node < id then o.node :: t.ancestors o.node else []
termination_by id

/-- The nodes above a node that has the given origin, the nearest first. -/
def lineage (t : Tree cap) : Option Origin → List Nat
  | none => []
  | some o => o.node :: t.ancestors o.node

def markingsOf (t : Tree cap) (ids : List Nat) : List (Marking cap) :=
  ids.filterMap fun id => (t.entryAt id).map Entry.marking

theorem markingsOf_cons (h : t.entryAt id = some e) (ids : List Nat) :
    t.markingsOf (id :: ids) = e.marking :: t.markingsOf ids :=
  List.filterMap_cons_some (by rw [h, Option.map_some])

theorem IsLinked.ancestors_eq_lineage (ht : t.IsLinked) (id : Nat) :
    t.ancestors id = t.lineage (t.origin? id) := by
  rw [ancestors]
  split
  · rename_i ho
    rw [ho, lineage]
  · rename_i o ho
    rw [if_pos (ht.origin_lt id o ho), ho, lineage]

theorem lt_of_mem_ancestors {a : Nat} (h : a ∈ t.ancestors id) : a < id := by
  induction id using Nat.strongRecOn with
  | _ id ih =>
    rw [ancestors] at h
    split at h
    · cases h
    · split at h
      · rename_i o _ hlt
        rcases List.mem_cons.mp h with rfl | h
        · exact hlt
        · exact Nat.lt_trans (ih o.node hlt h) hlt
      · cases h

theorem lt_size_of_mem_lineage {origin : Option Origin} (horigin : ∀ o ∈ origin, o.node < t.size)
    {a : Nat} (h : a ∈ t.lineage origin) : a < t.size := by
  cases origin with
  | none => cases h
  | some o =>
    have ho := horigin o rfl
    rcases List.mem_cons.mp h with rfl | h
    · exact ho
    · exact Nat.lt_trans (lt_of_mem_ancestors h) ho

/-! ### Growing trees -/

/-- A tree has the nodes of another one, maybe with more children, and maybe more nodes. -/
def Extends (u t : Tree cap) : Prop :=
  ∀ id e, t.entryAt id = some e → u.entryAt id = some e

section Step

variable (h : u.entries = t.entries.push e)
include h

theorem entryAt_of_entries_eq (id : Nat) :
    u.entryAt id = if id = t.size then some e else t.entryAt id := by
  rw [entryAt_eq, h, entryAt_eq, Array.getElem?_push, size_entries]

theorem size_of_entries_eq : u.size = t.size + 1 := by
  rw [← size_entries, h, Array.size_push, size_entries]

theorem origin?_of_entries_eq (id : Nat) :
    u.origin? id = if id = t.size then e.origin else t.origin? id := by
  rw [origin?_eq_bind, entryAt_of_entries_eq h, origin?_eq_bind]
  split <;> rfl

theorem extends_of_entries_eq : u.Extends t := by
  intro id e' he'
  rw [entryAt_of_entries_eq h, if_neg (Nat.ne_of_lt (lt_size_of_entryAt he')), he']

theorem entryAt_cases_of_entries_eq {e' : Entry cap} (he' : u.entryAt id = some e') :
    t.entryAt id = some e' ∨ id = t.size ∧ e' = e := by
  rw [entryAt_of_entries_eq h] at he'
  split at he'
  · rename_i hid
    exact Or.inr ⟨hid, (Option.some.inj he').symm⟩
  · exact Or.inl he'

end Step

namespace Extends

theorem entryAt_eq (h : u.Extends t) (hid : id < t.size) : u.entryAt id = t.entryAt id := by
  obtain ⟨k, hk⟩ := exists_node?_iff.mpr hid
  have he := entryAt_of_node? hk
  rw [he, h id _ he]

theorem origin?_eq (h : u.Extends t) (hid : id < t.size) : u.origin? id = t.origin? id := by
  rw [origin?_eq_bind, h.entryAt_eq hid, origin?_eq_bind]

theorem ancestors_eq (h : u.Extends t) (hid : id < t.size) : u.ancestors id = t.ancestors id := by
  induction id using Nat.strongRecOn with
  | _ id ih =>
    rw [ancestors, ancestors, h.origin?_eq hid]
    cases t.origin? id with
    | none => rfl
    | some o =>
      by_cases hlt : o.node < id
      · simp only [if_pos hlt, ih o.node hlt (Nat.lt_trans hlt hid)]
      · simp only [if_neg hlt]

theorem lineage_eq (h : u.Extends t) {origin : Option Origin}
    (horigin : ∀ o ∈ origin, o.node < t.size) : u.lineage origin = t.lineage origin := by
  cases origin with
  | none => rfl
  | some o => exact congrArg (o.node :: ·) (h.ancestors_eq (horigin o rfl))

theorem markingsOf_eq (h : u.Extends t) {ids : List Nat} (hids : ∀ id ∈ ids, id < t.size) :
    u.markingsOf ids = t.markingsOf ids :=
  List.filterMap_congr fun id hid => by rw [h.entryAt_eq (hids id hid)]

theorem markingsOf_ancestors (h : u.Extends t) (hid : id < t.size) :
    u.markingsOf (u.ancestors id) = t.markingsOf (t.ancestors id) := by
  rw [h.ancestors_eq hid]
  exact h.markingsOf_eq fun a ha => Nat.lt_trans (lt_of_mem_ancestors ha) hid

theorem markingsOf_lineage (h : u.Extends t) {origin : Option Origin}
    (horigin : ∀ o ∈ origin, o.node < t.size) :
    u.markingsOf (u.lineage origin) = t.markingsOf (t.lineage origin) := by
  rw [h.lineage_eq horigin]
  exact h.markingsOf_eq fun id hid => lt_size_of_mem_lineage horigin hid

end Extends

end Tree

end Coverability

end DrawnModels
