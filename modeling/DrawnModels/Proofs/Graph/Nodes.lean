import DrawnModels.Graph.Basic
import DrawnModels.Proofs.Collection.Entries
import Mathlib.Data.List.Nodup

/-!
# Nodes of graphs

Nodes are known by their identifiers: these are distinct, and the ends of the edges are among them.
-/

namespace DrawnModels

namespace Graph

variable {g : Graph}

theorem map_id_nodes (g : Graph) : g.nodes.map Node.id = g.ids := by
  simp [nodes, ids, KeyedList.keys, Function.comp_def]

theorem getElem?_ids (g : Graph) (q : Nat) : g.ids[q]? = g.nodes[q]?.map Node.id := by
  rw [← g.map_id_nodes, List.getElem?_map]

theorem mem_ids {id : String} : id ∈ g.ids ↔ ∃ v ∈ g.nodes, v.id = id := by
  rw [← g.map_id_nodes, List.mem_map]

theorem mem_nodes {v : Node} : v ∈ g.nodes ↔ g.table.find? v.id = some v.attributes := by
  rw [KeyedList.find?_eq_some_iff, nodes, List.mem_map]
  constructor
  · rintro ⟨e, he, rfl⟩
    exact he
  · exact fun hv => ⟨_, hv, rfl⟩

theorem nodup_nodes (g : Graph) : g.nodes.Nodup :=
  List.Nodup.of_map Node.id (g.map_id_nodes ▸ g.table.keys_nodup)

theorem eq_of_id {v w : Node} (hv : v ∈ g.nodes) (hw : w ∈ g.nodes) (h : v.id = w.id) : v = w :=
  List.inj_on_of_nodup_map (g.map_id_nodes ▸ g.table.keys_nodup) hv hw h

theorem indexOf_eq_iff {id : String} (hid : id ∈ g.ids) {i : Nat} :
    g.indexOf id = i ↔ g.ids[i]? = some id := by
  have hlt : g.ids.idxOf id < g.ids.length := List.idxOf_lt_length_of_mem hid
  constructor
  · rintro rfl
    rw [indexOf, List.getElem?_eq_getElem hlt, List.getElem_idxOf]
  · intro hi
    obtain ⟨hi', rfl⟩ := List.getElem?_eq_some_iff.mp hi
    exact g.table.keys_nodup.idxOf_getElem i hi'

theorem getElem?_indexOf {id : String} (hid : id ∈ g.ids) : g.ids[g.indexOf id]? = some id :=
  (indexOf_eq_iff hid).mp rfl

theorem pairwise_indexOf (g : Graph) :
    g.ids.Pairwise fun a b => g.indexOf a < g.indexOf b := by
  rw [List.pairwise_iff_getElem]
  intro i j hi hj hij
  rwa [(indexOf_eq_iff (List.getElem_mem hi)).mpr (List.getElem?_eq_getElem hi),
    (indexOf_eq_iff (List.getElem_mem hj)).mpr (List.getElem?_eq_getElem hj)]

end Graph

end DrawnModels
