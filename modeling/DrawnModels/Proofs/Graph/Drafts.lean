import DrawnModels.Graph.Draft
import DrawnModels.Proofs.Collection.Folds
import DrawnModels.Proofs.Graph.Nodes

/-!
# Graphs that drafts describe

The graph of a draft has its edges, and for nodes the declared ones and the ends of the edges. A
node reads like each of its declarations, and one that is not declared has no attributes. Nothing
else depends on the order of the records, so drafts with the same records in different orders
describe graphs that differ only in their order.
-/

namespace DrawnModels

/-- The same value is written under every key. -/
def Attributes.ReadsLike (a b : Attributes) : Prop :=
  ∀ key, a.raw? key = b.raw? key

theorem Attributes.agrees_iff {a b : Attributes} : a.agrees b = true ↔ a.ReadsLike b :=
  KeyedList.sameMap_iff

theorem Attributes.ReadsLike.getD_eq {a b : Attributes} (h : a.ReadsLike b) (key : String) :
    a.getD key = b.getD key := by
  rw [getD, getD, get?, get?, h key]

namespace Draft

variable {d : Draft} {g : Graph} {table t : KeyedList String Attributes}

theorem declare_cases {n : Node} (h : declare table n = .ok t) :
    (table.find? n.id = none ∧ t = table.insert n.id n.attributes) ∨
      ∃ first, table.find? n.id = some first ∧ first.ReadsLike n.attributes ∧ t = table := by
  unfold declare at h
  split at h
  · cases h
  · split at h
    · rename_i hnone
      cases h
      exact Or.inl ⟨hnone, rfl⟩
    · rename_i first hfirst
      split at h
      · rename_i hagrees
        cases h
        exact Or.inr ⟨first, hfirst, Attributes.agrees_iff.mp hagrees, rfl⟩
      · cases h

theorem mention_cases {id : String} (h : mention table id = .ok t) :
    t = table ∨ (table.find? id = none ∧ t = table.insert id .empty) := by
  unfold mention at h
  split at h
  · cases h
  · split at h
    · cases h
      exact Or.inl rfl
    · rename_i hnot
      cases h
      refine Or.inr ⟨?_, rfl⟩
      simpa [KeyedList.contains] using hnot

/-- A table holds the declared nodes and no others, and each reads like all its declarations. -/
structure Declares (nodes : List Node) (table : KeyedList String Attributes) : Prop where
  readsLike : ∀ n ∈ nodes, ∃ a, table.find? n.id = some a ∧ a.ReadsLike n.attributes
  declared : ∀ id a, table.find? id = some a → ∃ n ∈ nodes, n.id = id

theorem Declares.declare {nodes : List Node} {n : Node} (h : Declares nodes table)
    (hok : declare table n = .ok t) : Declares (nodes ++ [n]) t := by
  rcases declare_cases hok with ⟨hnew, rfl⟩ | ⟨first, hfirst, hreads, rfl⟩
  · refine ⟨fun v hv => ?_, fun id a hid => ?_⟩
    · rw [KeyedList.find?_insert]
      rcases List.mem_append.mp hv with hv | hv
      · obtain ⟨a, ha, hreads⟩ := h.readsLike v hv
        have hne : v.id ≠ n.id := fun he => by
          rw [he, hnew] at ha
          cases ha
        exact ⟨a, by rw [if_neg hne, ha], hreads⟩
      · obtain rfl := List.mem_singleton.mp hv
        exact ⟨v.attributes, if_pos rfl, fun _ => rfl⟩
    · rw [KeyedList.find?_insert] at hid
      by_cases he : id = n.id
      · exact ⟨n, by simp, he.symm⟩
      · rw [if_neg he] at hid
        obtain ⟨v, hv, hvid⟩ := h.declared id a hid
        exact ⟨v, List.mem_append_left _ hv, hvid⟩
  · refine ⟨fun v hv => ?_, fun id a hid => ?_⟩
    · rcases List.mem_append.mp hv with hv | hv
      · exact h.readsLike v hv
      · obtain rfl := List.mem_singleton.mp hv
        exact ⟨first, hfirst, hreads⟩
    · obtain ⟨v, hv, hvid⟩ := h.declared id a hid
      exact ⟨v, List.mem_append_left _ hv, hvid⟩

/-- The nodes of a table stay as they are, and others come without attributes. -/
structure Extends (table t : KeyedList String Attributes) : Prop where
  kept : ∀ id a, table.find? id = some a → t.find? id = some a
  added : ∀ id a, t.find? id = some a → table.find? id = some a ∨ a = .empty

theorem Extends.mention {t' : KeyedList String Attributes} {id : String} (h : Extends table t)
    (hok : mention t id = .ok t') : Extends table t' := by
  rcases mention_cases hok with rfl | ⟨hnew, rfl⟩
  · exact h
  · refine ⟨fun j a hj => ?_, fun j a hj => ?_⟩
    · have hne : j ≠ id := fun he => by
        rw [← he, h.kept j a hj] at hnew
        cases hnew
      rw [KeyedList.find?_insert, if_neg hne, h.kept j a hj]
    · rw [KeyedList.find?_insert] at hj
      by_cases he : j = id
      · rw [if_pos he] at hj
        exact Or.inr (Option.some.inj hj).symm
      · rw [if_neg he] at hj
        exact h.added j a hj

/-- The graph has the nodes and edges that a draft speaks of. -/
structure Describes (d : Draft) (g : Graph) : Prop where
  edges : g.edges = d.edges
  mem_ids : ∀ id, id ∈ g.ids ↔ (∃ n ∈ d.nodes, n.id = id) ∨
    ∃ e ∈ d.edges, e.source = id ∨ e.target = id
  readsLike : ∀ v ∈ g.nodes, ∀ n ∈ d.nodes, n.id = v.id → v.attributes.ReadsLike n.attributes
  undeclared : ∀ v ∈ g.nodes, (∀ n ∈ d.nodes, n.id ≠ v.id) → v.attributes = .empty

theorem mem_ends {edges : List Edge} {id : String} :
    id ∈ ends edges ↔ ∃ e ∈ edges, e.source = id ∨ e.target = id := by
  simp [ends, eq_comm]

theorem exists_declared_of_build (h : d.build = .ok g) :
    ∃ declared, d.nodes.foldlM declare .empty = .ok declared ∧
      (ends d.edges).foldlM mention declared = .ok g.table ∧ g.edges = d.edges := by
  unfold build at h
  split at h
  · cases h
  · rename_i declared hdeclared
    split at h
    · cases h
    · rename_i table htable
      cases h
      exact ⟨declared, hdeclared, htable, rfl⟩

theorem Declares.mem_keys_iff {nodes : List Node} (h : Declares nodes table) {id : String} :
    id ∈ table.keys ↔ ∃ n ∈ nodes, n.id = id := by
  rw [KeyedList.mem_keys_iff]
  constructor
  · rintro ⟨a, ha⟩
    exact h.declared id a ha
  · rintro ⟨n, hn, rfl⟩
    obtain ⟨a, ha, -⟩ := h.readsLike n hn
    exact ⟨a, ha⟩

theorem describes_of_build (h : d.build = .ok g) : d.Describes g := by
  obtain ⟨declared, hdeclared, htable, hedges⟩ := exists_declared_of_build h
  have hdecl : Declares d.nodes declared :=
    of_foldlM_eq_ok (fun _ _ _ _ => Declares.declare) ⟨by simp, by simp⟩ hdeclared
  have hext : Extends declared g.table :=
    of_foldlM_eq_ok (P := fun _ => Extends declared) (fun _ _ _ _ => Extends.mention)
      ⟨fun _ _ => id, fun _ _ => Or.inl⟩ htable
  refine ⟨hedges, fun id => ?_, fun v hv n hn hid => ?_, fun v hv hnone => ?_⟩
  · rw [Graph.ids, mem_keys_of_foldlM_mention htable, hdecl.mem_keys_iff, mem_ends, or_comm]
  · obtain ⟨a, ha, hreads⟩ := hdecl.readsLike n hn
    have hfind := hext.kept _ a ha
    rw [hid, Graph.mem_nodes.mp hv] at hfind
    cases hfind
    exact hreads
  · rcases hext.added _ _ (Graph.mem_nodes.mp hv) with hfind | hempty
    · obtain ⟨n, hn, hid⟩ := hdecl.declared _ _ hfind
      exact absurd hid (hnone n hn)
    · exact hempty

end Draft

/-! ### Rearrangements -/

/-- Both graphs have the same nodes, which read alike. -/
structure Graph.SameNodes (g h : Graph) : Prop where
  mem_ids : ∀ id, id ∈ g.ids ↔ id ∈ h.ids
  readsLike : ∀ v ∈ g.nodes, ∀ w ∈ h.nodes, v.id = w.id → v.attributes.ReadsLike w.attributes

namespace Graph.SameNodes

variable {g h : Graph}

theorem symm (hgh : g.SameNodes h) : h.SameNodes g where
  mem_ids id := (hgh.mem_ids id).symm
  readsLike w hw v hv hid key := (hgh.readsLike v hv w hw hid.symm key).symm

theorem exists_node (hgh : g.SameNodes h) {v : Node} (hv : v ∈ g.nodes) :
    ∃ w ∈ h.nodes, v.id = w.id ∧ v.attributes.ReadsLike w.attributes := by
  obtain ⟨w, hw, hid⟩ := Graph.mem_ids.mp ((hgh.mem_ids v.id).mp (Graph.mem_ids.mpr ⟨v, hv, rfl⟩))
  exact ⟨w, hw, hid.symm, hgh.readsLike v hv w hw hid.symm⟩

end Graph.SameNodes

/-- Both graphs have the same nodes, which read alike, and the same edges. -/
structure Graph.Rearranges (g h : Graph) : Prop where
  mem_ids : ∀ id, id ∈ g.ids ↔ id ∈ h.ids
  readsLike : ∀ v ∈ g.nodes, ∀ w ∈ h.nodes, v.id = w.id → v.attributes.ReadsLike w.attributes
  mem_edges : ∀ e, e ∈ g.edges ↔ e ∈ h.edges

namespace Graph.Rearranges

variable {g h : Graph}

theorem sameNodes (hgh : g.Rearranges h) : g.SameNodes h :=
  ⟨hgh.mem_ids, hgh.readsLike⟩

theorem symm (hgh : g.Rearranges h) : h.Rearranges g where
  mem_ids := hgh.sameNodes.symm.mem_ids
  readsLike := hgh.sameNodes.symm.readsLike
  mem_edges e := (hgh.mem_edges e).symm

end Graph.Rearranges

/-- Drafts with the same records describe graphs that are the same but for the order. -/
theorem Draft.Describes.rearranges {d d' : Draft} {g h : Graph} (hg : d.Describes g)
    (hh : d'.Describes h) (hnodes : ∀ n, n ∈ d.nodes ↔ n ∈ d'.nodes)
    (hedges : ∀ e, e ∈ d.edges ↔ e ∈ d'.edges) : g.Rearranges h where
  mem_ids id := by simp only [hg.mem_ids, hh.mem_ids, hnodes, hedges]
  readsLike v hv w hw hid := by
    by_cases hdeclared : ∃ n ∈ d.nodes, n.id = v.id
    · obtain ⟨n, hn, hnid⟩ := hdeclared
      intro key
      rw [hg.readsLike v hv n hn hnid key,
        hh.readsLike w hw n ((hnodes n).mp hn) (hnid.trans hid) key]
    · have hv' : v.attributes = .empty :=
        hg.undeclared v hv fun n hn hnid => hdeclared ⟨n, hn, hnid⟩
      have hw' : w.attributes = .empty :=
        hh.undeclared w hw fun n hn hnid =>
          hdeclared ⟨n, (hnodes n).mpr hn, hnid.trans hid.symm⟩
      rw [hv', hw']
      exact fun _ => rfl
  mem_edges e := by rw [hg.edges, hh.edges, hedges]

end DrawnModels
