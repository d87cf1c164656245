import DrawnModels.Proofs.Collection.Entries
import DrawnModels.Proofs.Petri.Arcs
import DrawnModels.Proofs.Text.ByteOrder

/-!
# Nets that are made from names

Places and transitions may be given in any order and again and again. The net has each place once, in
the order of the bytes of the names, so that halving finds a place where a search from the front finds
it. A transition that is given again stands where it was given first and has the arcs that were given
last. An arc to a place counts as often as its name is listed, and other names count for nothing.
-/

namespace DrawnModels

namespace Net

/-- The weights of the arcs count the names of the places, and nothing else has a weight. -/
structure Resolves (n : Net) (t : NamedTransition) (r : Transition) : Prop where
  inputWeight : ∀ i place, n.placeName? i = some place → r.inputWeight i = t.inputs.count place
  outputWeight : ∀ i place, n.placeName? i = some place → r.outputWeight i = t.outputs.count place
  unknown : ∀ i, n.placeName? i = none → r.inputWeight i = 0 ∧ r.outputWeight i = 0

/-- A net has the given places, numbered in the order of the bytes of their names, and the given
transitions, each at its first occurrence and with the arcs of its last. -/
structure IsMadeOf (n : Net) (places : List String) (transitions : List NamedTransition) :
    Prop where
  sorted : n.placeNames.Pairwise fun a b => Text.bytes a < Text.bytes b
  mem_placeNames : ∀ name, name ∈ n.placeNames ↔ name ∈ places
  placeId?_eq_idxOf? : ∀ name, n.placeId? name = n.placeNames.idxOf? name
  placeId?_eq_some_iff : ∀ name i, n.placeId? name = some i ↔ n.placeName? i = some name
  placeId?_eq_none_iff : ∀ name, n.placeId? name = none ↔ name ∉ places
  mem_transitionNames : ∀ name,
    name ∈ n.transitionNames ↔ name ∈ transitions.map NamedTransition.name
  ordered : n.transitionNames.Pairwise fun a b =>
    (transitions.map NamedTransition.name).idxOf a < (transitions.map NamedTransition.name).idxOf b
  resolves : ∀ earlier t later, transitions = earlier ++ t :: later →
    t.name ∉ later.map NamedTransition.name →
      ∃ i r, n.transitionName? i = some t.name ∧ n.transitionList[i]? = some r ∧
        n.transition? t.name = some r ∧ n.Resolves t r

variable {n : Net} {name : String} {i : Nat}

theorem placeId?_eq_some_iff : n.placeId? name = some i ↔ n.placeName? i = some name :=
  SortedSet.index?_eq_some_iff

theorem placeId?_eq_none_iff : n.placeId? name = none ↔ name ∉ n.placeNames :=
  SortedSet.index?_eq_none_iff

theorem exists_transitionName?_of_transition? {r : Transition} (h : n.transition? name = some r) :
    ∃ i, n.transitionName? i = some name ∧ n.transitionList[i]? = some r := by
  obtain ⟨i, hi⟩ := List.mem_iff_getElem?.mp (KeyedList.find?_eq_some_iff.mp h)
  refine ⟨i, ?_, ?_⟩
  · rw [transitionName?, transitionNames, KeyedList.keys, List.getElem?_map, hi, Option.map_some]
  · rw [transitionList, List.getElem?_map, hi, Option.map_some]

theorem resolves_resolve (n : Net) (t : NamedTransition) : n.Resolves t (resolve n.places t) where
  inputWeight _ _ hplace :=
    SortedSet.count_filterMap_index? (placeId?_eq_some_iff.mpr hplace) t.inputs
  outputWeight _ _ hplace :=
    SortedSet.count_filterMap_index? (placeId?_eq_some_iff.mpr hplace) t.outputs
  unknown i hi := by
    have hnot (names : List String) : (names.filterMap n.places.index?).count i = 0 := by
      refine List.count_eq_zero.mpr fun hmem => ?_
      have hlt : i < n.placeNames.length := SortedSet.lt_size_of_mem_filterMap_index? hmem
      exact absurd (List.getElem?_eq_none_iff.mp hi) (Nat.not_le.mpr hlt)
    exact ⟨hnot t.inputs, hnot t.outputs⟩

theorem transitionNames_make (places : List String) (transitions : List NamedTransition) :
    (make places transitions).transitionNames =
      (transitions.map NamedTransition.name).eraseDups := by
  rw [transitionNames, make, KeyedList.keys_ofList, List.map_map]
  rfl

theorem transition?_make (places : List String) (earlier : List NamedTransition)
    {t : NamedTransition} {later : List NamedTransition}
    (h : t.name ∉ later.map NamedTransition.name) :
    (make places (earlier ++ t :: later)).transition? t.name =
      some (resolve (.ofList places) t) := by
  rw [transition?, make, List.map_append, List.map_cons]
  apply KeyedList.find?_ofList_of_not_mem
  rw [List.map_map]
  exact h

/-- Whatever names are given, the net is made of them. -/
theorem isMadeOf_make (places : List String) (transitions : List NamedTransition) :
    (make places transitions).IsMadeOf places transitions where
  sorted := (pairwise_placeNames _).imp Text.bytes_lt_bytes
  mem_placeNames _ := SortedSet.mem_ofList
  placeId?_eq_idxOf? name := SortedSet.index?_eq_idxOf? _ name
  placeId?_eq_some_iff _ _ := placeId?_eq_some_iff
  placeId?_eq_none_iff _ := placeId?_eq_none_iff.trans (not_congr SortedSet.mem_ofList)
  mem_transitionNames name := by rw [transitionNames_make, List.mem_eraseDups]
  ordered := by
    rw [transitionNames_make]
    exact pairwise_idxOf_eraseDups _
  resolves earlier t later hsplit hlast := by
    subst hsplit
    have hfound := transition?_make places earlier hlast
    obtain ⟨i, hname, hlist⟩ := exists_transitionName?_of_transition? hfound
    exact ⟨i, _, hname, hlist, hfound, resolves_resolve _ t⟩

example :
    make ["b", "a", "b"] [⟨"t", ["a"], []⟩, ⟨"u", [], []⟩, ⟨"t", ["b", "c", "b"], ["a"]⟩] =
      ⟨.ofList ["a", "b"], .ofList [("t", ⟨[1, 1], [0]⟩), ("u", ⟨[], []⟩)]⟩ := by
  decide +kernel

end Net

end DrawnModels
