import DrawnModels.Analysis
import DrawnModels.Proofs.Coverability.Branches
import DrawnModels.Proofs.Petri.ArcOrder
import DrawnModels.Proofs.Petri.Shapes

/-!
# Coverability trees of redrawn graphs

Two nets whose transitions do the same are searched in step: at any time the trees are the same, and
the same markings are to be added to them. So the coverability tree does not show how the graph was
drawn, except in the order of the transitions.
-/

namespace DrawnModels

namespace Coverability

variable {cap : Capacity} {n n' : Net}

namespace Pending

variable {places places' : Nat}

theorem map_content_successors (p : Pending cap places) (n : Net) (id : Nat) :
    (p.successors n id).map content =
      (n.transitionList.map p.marking.fire?).zipIdx.filterMap fun e =>
        e.1.map (p.contentAfter id e.2) := by
  rw [successors, List.map_filterMap, List.zipIdx_map, List.filterMap_map]
  refine List.filterMap_congr fun e _ => ?_
  exact p.map_content_successor? id e.2 e.1

theorem map_content_successors_eq (hn : n.FiresLike cap n') {p : Pending cap places}
    {p' : Pending cap places'} (hp : p.content = p'.content) (id : Nat) :
    (p.successors n id).map content = (p'.successors n' id).map content := by
  obtain ⟨hmarking, -, hpath⟩ := content_eq_iff.mp hp
  have hafter : p.contentAfter = p'.contentAfter := by
    funext id i m
    rw [contentAfter, contentAfter, hmarking, hpath]
  rw [map_content_successors, map_content_successors, hafter, hmarking, hn.fire?]

end Pending

theorem Tree.push_congr {t t' : Tree cap} {e e' : Entry cap} (ht : t = t') (he : e = e')
    {h : ∀ o ∈ e.origin, o.node < t.size} {h' : ∀ o ∈ e'.origin, o.node < t'.size} :
    t.push e h = t'.push e' h' := by
  subst ht he
  rfl

namespace Search

/-- Two searches have grown the same tree and are about to add the same to it. -/
structure InStep (s : Search cap n) (s' : Search cap n') : Prop where
  tree : s.tree = s'.tree
  pending : s.pending.map Pending.content = s'.pending.map Pending.content

namespace InStep

variable {s : Search cap n} {s' : Search cap n'} {p : Pending cap n.placeCount}
  {p' : Pending cap n'.placeCount} {rest : List (Pending cap n.placeCount)}
  {rest' : List (Pending cap n'.placeCount)}

theorem entry_eq (h : p.content = p'.content) (kind : Kind) :
    (⟨p.marking, kind, p.origin⟩ : Entry cap) = ⟨p'.marking, kind, p'.origin⟩ := by
  obtain ⟨hmarking, horigin, -⟩ := Pending.content_eq_iff.mp h
  rw [hmarking, horigin]

theorem addLeaf (h : s.InStep s') (hp : s.pending = p :: rest) (hp' : s'.pending = p' :: rest')
    (hcontent : p.content = p'.content)
    (hrest : rest.map Pending.content = rest'.map Pending.content) :
    (s.addLeaf p rest hp).InStep (s'.addLeaf p' rest' hp') where
  tree := by
    simp only [Search.addLeaf]
    exact Tree.push_congr h.tree (entry_eq hcontent .revisited)
  pending := hrest

theorem addExplored (hn : n.FiresLike cap n') (h : s.InStep s') (hp : s.pending = p :: rest)
    (hp' : s'.pending = p' :: rest') (hcontent : p.content = p'.content)
    (hrest : rest.map Pending.content = rest'.map Pending.content) :
    (s.addExplored p rest hp).InStep (s'.addExplored p' rest' hp') where
  tree := by
    simp only [Search.addExplored]
    exact congrArg₂ Tree.visit (Tree.push_congr h.tree (entry_eq hcontent .explored))
      (Pending.content_eq_iff.mp hcontent).1
  pending := by
    have hsuccessors := Pending.map_content_successors_eq hn hcontent s.tree.size
    rw [h.tree] at hsuccessors
    simp only [Search.addExplored, List.map_append, List.map_reverse, hrest, h.tree, hsuccessors]

theorem step? (hn : n.FiresLike cap n') (h : s.InStep s') :
    Option.Rel InStep s.step? s'.step? := by
  have hpending := h.pending
  cases hp : s.pending with
  | nil =>
    rw [hp, List.map_nil] at hpending
    rw [step?_of_nil hp, step?_of_nil (List.map_eq_nil_iff.mp hpending.symm)]
    exact .none
  | cons p rest =>
    cases hp' : s'.pending with
    | nil =>
      rw [hp, hp'] at hpending
      cases hpending
    | cons p' rest' =>
      rw [hp, hp'] at hpending
      obtain ⟨hcontent, hrest⟩ := List.cons.inj hpending
      have hmarking := (Pending.content_eq_iff.mp hcontent).1
      have hcontains : s.tree.contains p.marking = s'.tree.contains p'.marking := by
        rw [h.tree, hmarking]
      rw [step?_of_cons hp, step?_of_cons hp', hcontains]
      split
      · exact .some (h.addLeaf hp hp' hcontent hrest)
      · exact .some (addExplored hn h hp hp' hcontent hrest)

theorem run_eq {most : Nat} (hn : n.FiresLike (.upTo most) n') {s : Search (.upTo most) n}
    {s' : Search (.upTo most) n'} (h : s.InStep s') : s.run = s'.run := by
  induction s using run.induct generalizing s' with
  | case1 s hnone =>
    have hstep := h.step? hn
    rw [hnone] at hstep
    rw [run, run, hnone]
    cases hs' : s'.step? with
    | none => exact h.tree
    | some t' => rw [hs'] at hstep; cases hstep
  | case2 s t hsome ih =>
    have hstep := h.step? hn
    rw [hsome] at hstep
    rw [run, run, hsome]
    cases hs' : s'.step? with
    | none => rw [hs'] at hstep; cases hstep
    | some t' =>
      rw [hs'] at hstep
      cases hstep with
      | some ht => exact ih ht

end InStep

theorem inStep_start (hn : n.FiresLike cap n') (initial : Marking cap) :
    (start n initial).InStep (start n' initial) where
  tree := by
    simp only [start, Tree.empty, Net.placeNames, hn.places, hn.transitionNames]
  pending := by
    simp only [start, List.map_cons, List.map_nil, Pending.content, Net.placeCount, hn.places]

end Search

/-- Nets whose transitions do the same have the same coverability trees. -/
theorem explore_eq_of_firesLike {most : Nat} (hn : n.FiresLike (.upTo most) n')
    (initial : Marking (.upTo most)) : explore n initial = explore n' initial :=
  (Search.inStep_start hn initial).run_eq hn

end Coverability

namespace Graph

/-- The coverability tree is the same for two graphs with the same nodes and equally many edges
between them, in whatever order, if their transitions come in the same order. -/
theorem cover_eq_of_redraws {g h : Graph} {c : Conventions} (hgh : g.Redraws h)
    (horder : g.transitions c = h.transitions c) (initial : InitialMarking .word) :
    g.cover c initial = h.cover c initial := by
  have hfires : (g.toNet c).FiresLike .word (h.toNet c) := hgh.firesLike horder
  have hinitial : initial.forNet (g.toNet c) = initial.forNet (h.toNet c) := by
    rw [InitialMarking.forNet, InitialMarking.forNet, Net.placeNames, Net.placeNames, hfires.places]
  rw [cover, cover, hinitial]
  exact Coverability.explore_eq_of_firesLike hfires _

/-- The producer and the consumer in another drawing: nodes and edges come in another order, except
for the transitions among themselves, and edges have labels. -/
def producerConsumerRedrawn : Graph where
  table := .ofList [("p3", .ofList [("shape", "circle")]), ("t1", .ofList [("shape", "box")]),
    ("p1", .ofList [("shape", "circle")]), ("t2", .ofList [("shape", "box")]),
    ("p2", .ofList [("shape", "circle")])]
  edges := [⟨"t1", "p2", .ofList [("label", "first")]⟩, ⟨"t2", "p3", .empty⟩,
    ⟨"p2", "t2", .empty⟩, ⟨"t1", "p2", .ofList [("label", "second")]⟩, ⟨"p1", "t1", .empty⟩]
  source_mem := by decide
  target_mem := by decide

theorem cover_producerConsumerRedrawn :
    producerConsumer.Redraws producerConsumerRedrawn ∧
      producerConsumer.transitions {} = producerConsumerRedrawn.transitions {} ∧
      producerConsumer.nodes ≠ producerConsumerRedrawn.nodes ∧
      ∀ initial, producerConsumer.cover {} initial = producerConsumerRedrawn.cover {} initial := by
  have hredraws : producerConsumer.Redraws producerConsumerRedrawn := by
    refine ⟨⟨fun id => ?_, ?_⟩, by decide +kernel⟩
    · have hperm : producerConsumer.ids.Perm producerConsumerRedrawn.ids := by decide +kernel
      exact hperm.mem_iff
    · have hagrees : ∀ v ∈ producerConsumer.nodes, ∀ w ∈ producerConsumerRedrawn.nodes,
          v.id = w.id → v.attributes.agrees w.attributes = true := by decide +kernel
      intro v hv w hw hid
      exact Attributes.agrees_iff.mp (hagrees v hv w hw hid)
  have horder : producerConsumer.transitions {} = producerConsumerRedrawn.transitions {} := by
    decide +kernel
  exact ⟨hredraws, horder, by decide +kernel, cover_eq_of_redraws hredraws horder⟩

end Graph

end DrawnModels
