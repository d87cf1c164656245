import DrawnModels.Proofs.Collection.Classes
import DrawnModels.Proofs.Graph.Drafts
import DrawnModels.Proofs.Petri.Arcs
import DrawnModels.Proofs.Petri.Firing

/-!
# The order of arcs

The order of the edges of a graph is the order in which its transitions list their arcs, and so the
order in which they take and put tokens. But a transition fires by the weights of its arcs, and
places are numbered by their names. So a graph that is drawn in another order gives a net that does
the same, if only its transitions stay in order.
-/

namespace DrawnModels

variable {cap : Capacity}

namespace Transition

/-- The same arcs, in whatever order. -/
structure SameArcs (t t' : Transition) : Prop where
  inputs : t.inputs.Perm t'.inputs
  outputs : t.outputs.Perm t'.outputs

namespace SameArcs

variable {t t' : Transition}

theorem symm (h : t.SameArcs t') : t'.SameArcs t :=
  ⟨h.inputs.symm, h.outputs.symm⟩

theorem inputWeight_eq (h : t.SameArcs t') (p : Nat) : t.inputWeight p = t'.inputWeight p :=
  h.inputs.count_eq p

theorem outputWeight_eq (h : t.SameArcs t') (p : Nat) : t.outputWeight p = t'.outputWeight p :=
  h.outputs.count_eq p

theorem fire?_eq_some (h : t.SameArcs t') {m n : Marking cap} (hn : m.fire? t = some n) :
    m.fire? t' = some n := by
  rw [Marking.fire?_eq_some_iff, Marking.enables_iff] at hn ⊢
  obtain ⟨hen, hout, hs, hget⟩ := hn
  refine ⟨fun p => ?_, fun p hp => hout p (h.outputs.mem_iff.mpr hp), hs, fun p => ?_⟩
  · rw [← h.inputWeight_eq]
    exact hen p
  · rw [← h.inputWeight_eq, ← h.outputWeight_eq]
    exact hget p

/-- The order in which tokens are taken and put does not matter. -/
theorem fire?_eq (h : t.SameArcs t') (m : Marking cap) : m.fire? t = m.fire? t' := by
  ext n
  exact ⟨h.fire?_eq_some, h.symm.fire?_eq_some⟩

end SameArcs

end Transition

/-- The same places, and transitions of the same names that do the same in every marking. -/
structure Net.FiresLike (cap : Capacity) (n n' : Net) : Prop where
  places : n.places = n'.places
  transitionNames : n.transitionNames = n'.transitionNames
  fire? : ∀ m : Marking cap, n.transitionList.map m.fire? = n'.transitionList.map m.fire?

/-! ### Redrawing -/

def Edge.ends (e : Edge) : String × String :=
  (e.source, e.target)

/-- Both graphs have the same nodes, which read alike, and equally many edges from each node to each
other, in whatever order. -/
structure Graph.Redraws (g h : Graph) : Prop extends g.SameNodes h where
  ends : (g.edges.map Edge.ends).Perm (h.edges.map Edge.ends)

namespace Graph

variable {g h : Graph} {c : Conventions}

theorem SameNodes.mem_places (hgh : g.SameNodes h) {id : String} (hid : id ∈ g.places c) :
    id ∈ h.places c := by
  obtain ⟨v, hv, hplace, rfl⟩ := Graph.mem_places.mp hid
  obtain ⟨w, hw, hid, hreads⟩ := hgh.exists_node hv
  have hshape : v.attributes.shape = w.attributes.shape := hreads.getD_eq "shape"
  rw [Conventions.isPlace, hshape, hid] at hplace
  exact Graph.mem_places.mpr ⟨w, hw, hplace, hid.symm⟩

theorem SameNodes.mem_places_iff (hgh : g.SameNodes h) (id : String) :
    id ∈ g.places c ↔ id ∈ h.places c :=
  ⟨hgh.mem_places, hgh.symm.mem_places⟩

theorem arcsAt_eq (places : List String) (edges : List Edge) (t : String) :
    arcsAt places edges t =
      ⟨((edges.map Edge.ends).filter fun p => p.2 = t && places.contains p.1).map Prod.fst,
        ((edges.map Edge.ends).filter fun p => p.1 = t && places.contains p.2).map Prod.snd⟩ := by
  rw [List.filter_map, List.filter_map, List.map_map, List.map_map]
  rfl

theorem places_toNet (g : Graph) (c : Conventions) :
    (g.toNet c).places = .ofList (g.places c) := rfl

theorem Redraws.places_toNet_eq (hgh : g.Redraws h) (c : Conventions) :
    (g.toNet c).places = (h.toNet c).places := by
  apply SortedSet.eq_of_mem_iff
  intro id
  rw [places_toNet, places_toNet, SortedSet.mem_ofList, SortedSet.mem_ofList]
  exact hgh.mem_places_iff id

theorem Redraws.sameArcs_resolvedArcs (hgh : g.Redraws h) (c : Conventions) (t : String) :
    (g.resolvedArcs c t).SameArcs (h.resolvedArcs c t) := by
  have hplaces : SortedSet.ofList (g.places c) = .ofList (h.places c) := hgh.places_toNet_eq c
  have hcontains : (g.places c).contains = (h.places c).contains := by
    funext id
    rw [Bool.eq_iff_iff, List.contains_iff_mem, List.contains_iff_mem]
    exact hgh.mem_places_iff id
  rw [resolvedArcs, resolvedArcs, arcsAt_eq, arcsAt_eq, hplaces, hcontains]
  constructor
  · exact ((hgh.ends.filter _).map _).filterMap _
  · exact ((hgh.ends.filter _).map _).filterMap _

/-- A graph that is drawn in another order, with the transitions in the same order, gives a net that
does the same. -/
theorem Redraws.firesLike (hgh : g.Redraws h) (horder : g.transitions c = h.transitions c) :
    (g.toNet c).FiresLike cap (h.toNet c) where
  places := hgh.places_toNet_eq c
  transitionNames := by
    rw [Net.transitionNames, Net.transitionNames, KeyedList.keys_eq_of_entries (g.entries_toNet c),
      KeyedList.keys_eq_of_entries (h.entries_toNet c), horder]
  fire? m := by
    rw [Net.transitionList, Net.transitionList, entries_toNet, entries_toNet, horder]
    simp only [List.map_map]
    refine List.map_congr_left fun t _ => ?_
    exact (hgh.sameArcs_resolvedArcs c t).fire?_eq m

end Graph

end DrawnModels
