import DrawnModels.Petri.OfGraph
import DrawnModels.Proofs.Collection.Positions
import DrawnModels.Proofs.Graph.Nodes
import Mathlib.Data.List.Induction
import Mathlib.Data.String.Basic

/-!
# Arcs of nets that are read off graphs

A net is read off a graph by going through the edges once and adding each to the transition at one
of its ends. No node is both a place and a transition, so what a transition has gathered after some
of the edges can be said for itself: the places at the other ends of its edges among them. In the
end the weight of an arc is the number of edges between the place and the transition, in the
direction of the arc.
-/

namespace DrawnModels

/-- How many edges lead from one node to another. -/
def Graph.edgeCount (g : Graph) (source target : String) : Nat :=
  g.edges.countP fun e => e.source = source && e.target = target

theorem Graph.edgeCount_pos {g : Graph} {e : Edge} (he : e ∈ g.edges) :
    0 < g.edgeCount e.source e.target :=
  List.countP_pos_iff.mpr ⟨e, he, by simp⟩

namespace Net

/-- The places and the transitions of a net are the nodes of two kinds, and the weights of its arcs
count the edges between them. -/
structure ReadsOff (n : Net) (g : Graph) (place transition : Node → Bool) : Prop where
  mem_places : ∀ id, id ∈ n.places ↔ ∃ v ∈ g.nodes, place v = true ∧ v.id = id
  transitionNames : n.transitionNames = (g.nodes.filter transition).map Node.id
  weights : ∀ v ∈ g.nodes, place v = true → ∀ w ∈ g.nodes, transition w = true →
    ∃ i t, n.placeId? v.id = some i ∧ n.transition? w.id = some t ∧
      t.inputWeight i = g.edgeCount v.id w.id ∧ t.outputWeight i = g.edgeCount w.id v.id

/-- An edge is one of the arcs from places to transitions or from transitions to places. -/
def HasArc (n : Net) (e : Edge) : Prop :=
  (∃ i t, n.placeId? e.source = some i ∧ n.transition? e.target = some t ∧ i ∈ t.inputs) ∨
    ∃ i t, n.transition? e.source = some t ∧ n.placeId? e.target = some i ∧ i ∈ t.outputs

/-- Arcs to unknown places are dropped, so only places of the net are listed. -/
theorem lt_placeCount_make (places : List String) (transitions : List NamedTransition)
    {t : Transition} (ht : t ∈ (make places transitions).transitionList) {i : Nat}
    (hi : i ∈ t.inputs ∨ i ∈ t.outputs) : i < (make places transitions).placeCount := by
  obtain ⟨e, he, rfl⟩ := List.mem_map.mp ht
  obtain ⟨named, -, rfl⟩ := List.mem_map.mp (KeyedList.mem_of_mem_entries_ofList he)
  exact hi.elim SortedSet.lt_size_of_mem_filterMap_index? SortedSet.lt_size_of_mem_filterMap_index?

theorem pairwise_placeNames (n : Net) : n.placeNames.Pairwise (· < ·) :=
  n.places.sorted.imp compare_lt_iff_lt.mp

end Net

namespace Graph

variable {g : Graph} {c : Conventions}

theorem mem_places {id : String} :
    id ∈ g.places c ↔ ∃ v ∈ g.nodes, c.isPlace v = true ∧ v.id = id := by
  simp [places, and_assoc]

theorem nodup_transitions (g : Graph) (c : Conventions) : (g.transitions c).Nodup := by
  have hids : (g.nodes.map Node.id).Nodup := g.map_id_nodes ▸ g.table.keys_nodup
  exact hids.sublist (List.filter_sublist.map Node.id)

theorem disjoint_transitions_places (g : Graph) (c : Conventions) :
    (g.transitions c).Disjoint (g.places c) := by
  intro id htransition hplace
  obtain ⟨v, hv, rfl⟩ := List.mem_map.mp htransition
  obtain ⟨w, hw, hwplace, hid⟩ := mem_places.mp hplace
  obtain ⟨hv, hvtransition⟩ := List.mem_filter.mp hv
  rw [eq_of_id hw hv hid] at hwplace
  simp [Conventions.isTransition, hwplace] at hvtransition

/-! ### Gathering arcs -/

def arcsAt (places : List String) (edges : List Edge) (t : String) : NamedArcs where
  inputs := (edges.filter fun e => e.target = t && places.contains e.source).map Edge.source
  outputs := (edges.filter fun e => e.source = t && places.contains e.target).map Edge.target

section

variable {places transitions : List String} {arcs : KeyedList String NamedArcs}

theorem arcsAt_append_singleton (places : List String) (edges : List Edge) (e : Edge)
    (t : String) :
    arcsAt places (edges ++ [e]) t =
      ⟨(arcsAt places edges t).inputs ++
          if e.target = t ∧ e.source ∈ places then [e.source] else [],
        (arcsAt places edges t).outputs ++
          if e.source = t ∧ e.target ∈ places then [e.target] else []⟩ := by
  simp [arcsAt, List.filter_cons, apply_ite (List.map _)]

/-- One more edge adds to the arcs of at most one transition, since no end of it is both a place and
a transition. -/
theorem entries_addArc (hdisjoint : transitions.Disjoint places) {edges : List Edge}
    (harcs : arcs.entries = transitions.map fun t => (t, arcsAt places edges t)) (e : Edge) :
    (addArc places arcs e).entries =
      transitions.map fun t => (t, arcsAt places (edges ++ [e]) t) := by
  have hkeys : arcs.keys = transitions := KeyedList.keys_eq_of_entries harcs
  simp only [addArc, Bool.and_eq_true, List.contains_iff_mem, KeyedList.contains_iff, hkeys,
    arcsAt_append_singleton]
  split
  case isTrue hinput =>
    rw [KeyedList.entries_modify harcs]
    refine List.map_congr_left fun t ht => ?_
    have hsource : e.source ≠ t := fun h => hdisjoint ht (h ▸ hinput.1)
    by_cases htarget : t = e.target
    · subst htarget
      simp [hinput, hsource]
    · simp [htarget, Ne.symm htarget, hsource]
  case isFalse hinput =>
    split
    case isTrue houtput =>
      rw [KeyedList.entries_modify harcs]
      refine List.map_congr_left fun t ht => ?_
      have htarget : e.target ≠ t := fun h => hdisjoint ht (h ▸ houtput.1)
      by_cases hsource : t = e.source
      · subst hsource
        simp [houtput, htarget]
      · simp [hsource, Ne.symm hsource, htarget]
    case isFalse houtput =>
      rw [harcs]
      refine List.map_congr_left fun t ht => ?_
      have hin : ¬ (e.target = t ∧ e.source ∈ places) := fun h => hinput ⟨h.2, h.1 ▸ ht⟩
      have hout : ¬ (e.source = t ∧ e.target ∈ places) := fun h => houtput ⟨h.2, h.1 ▸ ht⟩
      simp [hin, hout]

theorem entries_foldl_addArc (hdisjoint : transitions.Disjoint places)
    (harcs : arcs.entries = transitions.map fun t => (t, arcsAt places [] t)) (edges : List Edge) :
    (edges.foldl (addArc places) arcs).entries =
      transitions.map fun t => (t, arcsAt places edges t) := by
  induction edges using List.reverseRecOn with
  | nil => exact harcs
  | append_singleton edges e ih =>
    rw [List.foldl_append]
    exact entries_addArc hdisjoint ih e

end

/-- Every transition has gathered the arcs that the edges stand for. -/
theorem entries_arcs (g : Graph) (c : Conventions) :
    (g.arcs c).entries = (g.transitions c).map fun t => (t, arcsAt (g.places c) g.edges t) :=
  entries_foldl_addArc (g.disjoint_transitions_places c)
    (KeyedList.entries_ofList_map (g.nodup_transitions c)) g.edges

theorem count_map_filter (near far : Edge → String) {places : List String} {place : String}
    (hplace : place ∈ places) (t : String) (edges : List Edge) :
    ((edges.filter fun e => near e = t && places.contains (far e)).map far).count place =
      edges.countP fun e => far e = place && near e = t := by
  rw [List.count_eq_countP, List.countP_map, List.countP_filter]
  refine List.countP_congr fun e _ => ?_
  simp only [Function.comp_apply, beq_iff_eq, Bool.and_eq_true, decide_eq_true_eq,
    List.contains_iff_mem]
  constructor
  · rintro ⟨hfar, hnear, -⟩
    exact ⟨hfar, hnear⟩
  · rintro ⟨rfl, hnear⟩
    exact ⟨rfl, hnear, hplace⟩

theorem count_inputs {place : String} (hplace : place ∈ g.places c) (t : String) :
    (arcsAt (g.places c) g.edges t).inputs.count place = g.edgeCount place t :=
  count_map_filter Edge.target Edge.source hplace t g.edges

theorem count_outputs {place : String} (hplace : place ∈ g.places c) (t : String) :
    (arcsAt (g.places c) g.edges t).outputs.count place = g.edgeCount t place := by
  rw [arcsAt, count_map_filter Edge.source Edge.target hplace t g.edges, edgeCount]
  simp only [Bool.and_comm]

def resolvedArcs (g : Graph) (c : Conventions) (t : String) : Transition :=
  let a := arcsAt (g.places c) g.edges t
  Net.resolve (.ofList (g.places c)) ⟨t, a.inputs, a.outputs⟩

/-- No transition is given twice, so each keeps its own arcs. -/
theorem entries_toNet (g : Graph) (c : Conventions) :
    (g.toNet c).transitions.entries = (g.transitions c).map fun t => (t, g.resolvedArcs c t) := by
  rw [toNet, Net.make, entries_arcs, List.map_map, List.map_map]
  exact KeyedList.entries_ofList_map (g.nodup_transitions c)

theorem readsOff_toNet (g : Graph) (c : Conventions) :
    (g.toNet c).ReadsOff g c.isPlace c.isTransition where
  mem_places id := SortedSet.mem_ofList.trans mem_places
  transitionNames := KeyedList.keys_eq_of_entries (g.entries_toNet c)
  weights v hv hplace w hw htransition := by
    have hmem : v.id ∈ g.places c := mem_places.mpr ⟨v, hv, hplace, rfl⟩
    obtain ⟨i, hi⟩ := SortedSet.exists_index?_iff.mpr (SortedSet.mem_ofList.mpr hmem)
    refine ⟨i, g.resolvedArcs c w.id, hi, ?_, ?_, ?_⟩
    · rw [Net.transition?, KeyedList.find?_eq_some_iff, entries_toNet]
      exact List.mem_map.mpr
        ⟨w.id, List.mem_map_of_mem (List.mem_filter.mpr ⟨hw, htransition⟩), rfl⟩
    · rw [Transition.inputWeight, resolvedArcs, Net.resolve, SortedSet.count_filterMap_index? hi,
        count_inputs hmem]
    · rw [Transition.outputWeight, resolvedArcs, Net.resolve, SortedSet.count_filterMap_index? hi,
        count_outputs hmem]

end Graph

namespace Net.ReadsOff

variable {n : Net} {g : Graph} {place transition place' transition' : Node → Bool}

theorem congr (h : n.ReadsOff g place transition) (hplace : ∀ v ∈ g.nodes, place v = place' v)
    (htransition : ∀ v ∈ g.nodes, transition v = transition' v) :
    n.ReadsOff g place' transition' where
  mem_places id := by
    rw [h.mem_places]
    exact exists_congr fun v => and_congr_right fun hv => by rw [hplace v hv]
  transitionNames := by rw [h.transitionNames, List.filter_congr htransition]
  weights v hv hv' w hw hw' :=
    h.weights v hv ((hplace v hv).trans hv') w hw ((htransition w hw).trans hw')

theorem mem_places_iff (h : n.ReadsOff g place transition) {v : Node} (hv : v ∈ g.nodes) :
    v.id ∈ n.places ↔ place v = true := by
  rw [h.mem_places]
  constructor
  · rintro ⟨w, hw, hplace, hid⟩
    exact Graph.eq_of_id hw hv hid ▸ hplace
  · exact fun hplace => ⟨v, hv, hplace, rfl⟩

theorem mem_transitionNames_iff (h : n.ReadsOff g place transition) {v : Node}
    (hv : v ∈ g.nodes) : v.id ∈ n.transitionNames ↔ transition v = true := by
  rw [h.transitionNames, List.mem_map]
  constructor
  · rintro ⟨w, hw, hid⟩
    obtain ⟨hw, htransition⟩ := List.mem_filter.mp hw
    exact Graph.eq_of_id hw hv hid ▸ htransition
  · exact fun htransition => ⟨v, List.mem_filter.mpr ⟨hv, htransition⟩, rfl⟩

theorem place_of_placeId? (h : n.ReadsOff g place transition) {v : Node} (hv : v ∈ g.nodes)
    {i : Nat} (hi : n.placeId? v.id = some i) : place v = true :=
  (h.mem_places_iff hv).mp (SortedSet.exists_index?_iff.mp ⟨i, hi⟩)

theorem transition_of_transition? (h : n.ReadsOff g place transition) {v : Node}
    (hv : v ∈ g.nodes) {t : Transition} (ht : n.transition? v.id = some t) :
    transition v = true :=
  (h.mem_transitionNames_iff hv).mp
    (List.mem_map.mpr ⟨_, KeyedList.find?_eq_some_iff.mp ht, rfl⟩)

theorem hasArc_iff (h : n.ReadsOff g place transition) {e : Edge} (he : e ∈ g.edges) {v w : Node}
    (hv : v ∈ g.nodes) (hw : w ∈ g.nodes) (hsource : v.id = e.source) (htarget : w.id = e.target) :
    n.HasArc e ↔ place v = true ∧ transition w = true ∨ transition v = true ∧ place w = true := by
  have hpos : 0 < g.edgeCount v.id w.id := hsource ▸ htarget ▸ Graph.edgeCount_pos he
  rw [HasArc, ← hsource, ← htarget]
  refine or_congr ⟨?_, ?_⟩ ⟨?_, ?_⟩
  · rintro ⟨i, t, hi, ht, -⟩
    exact ⟨h.place_of_placeId? hv hi, h.transition_of_transition? hw ht⟩
  · rintro ⟨hplace, htransition⟩
    obtain ⟨i, t, hi, ht, hinput, -⟩ := h.weights v hv hplace w hw htransition
    exact ⟨i, t, hi, ht, List.count_pos_iff.mp (Nat.lt_of_lt_of_eq hpos hinput.symm)⟩
  · rintro ⟨i, t, ht, hi, -⟩
    exact ⟨h.transition_of_transition? hv ht, h.place_of_placeId? hw hi⟩
  · rintro ⟨htransition, hplace⟩
    obtain ⟨i, t, hi, ht, -, houtput⟩ := h.weights w hw hplace v hv htransition
    exact ⟨i, t, ht, hi, List.count_pos_iff.mp (Nat.lt_of_lt_of_eq hpos houtput.symm)⟩

end Net.ReadsOff

/-- A net is the net of a graph: the places are the nodes that are classified as places and come in
the order of their names, the transitions are the nodes that are classified as transitions, the
weights of the arcs count the edges, and nothing else is listed in an arc. -/
structure Net.IsNetOf (n : Net) (g : Graph) (c : Conventions) : Prop
    extends n.ReadsOff g c.isPlace c.isTransition where
  sorted : n.placeNames.Pairwise (· < ·)
  disjoint : n.placeNames.Disjoint n.transitionNames
  lt_placeCount : ∀ t ∈ n.transitionList, ∀ i, i ∈ t.inputs ∨ i ∈ t.outputs → i < n.placeCount

theorem Graph.isNetOf_toNet (g : Graph) (c : Conventions) : (g.toNet c).IsNetOf g c where
  toReadsOff := g.readsOff_toNet c
  sorted := (g.toNet c).pairwise_placeNames
  disjoint := by
    rw [(g.readsOff_toNet c).transitionNames]
    intro id hplace
    exact fun htransition =>
      g.disjoint_transitions_places c htransition (SortedSet.mem_ofList.mp hplace)
  lt_placeCount _ ht _ hi := Net.lt_placeCount_make _ _ ht hi

end DrawnModels
