import DrawnModels.Proofs.Collection.Folds
import DrawnModels.Proofs.Petri.Arcs

/-!
# Graphs that are drawn like nets

A graph is drawn like a net if every node has the shape of places or of transitions, and every edge
runs between the two kinds. The net that is read off it goes by the names as well: a node with the
name of a place is a place whatever its shape. Drawn as a transition, such a node is read with the
wrong kind, and none of its edges is an arc. All other nodes and edges are read as they are drawn.
-/

namespace DrawnModels

namespace Graph

variable {g : Graph} {c : Conventions}

def kindOf (c : Conventions) (v : Node) : NodeKind :=
  if v.attributes.shape = c.placeShape then .place else .transition

theorem drawnKind_eq_ok_iff {v : Node} {k : NodeKind} :
    drawnKind c v = .ok k ↔
      (v.attributes.shape = c.placeShape ∨ v.attributes.shape = c.transitionShape) ∧
        k = kindOf c v := by
  unfold drawnKind kindOf
  by_cases hplace : v.attributes.shape = c.placeShape
  · simp [hplace, eq_comm]
  · rw [if_neg hplace, if_neg hplace, or_iff_right hplace]
    by_cases htransition : v.attributes.shape = c.transitionShape
    · rw [if_pos htransition, and_iff_right htransition, Except.ok.injEq, eq_comm]
    · simp [htransition]

theorem map_drawnKind_eq_ok_iff {v : Node} {p : String × NodeKind} :
    (drawnKind c v).map (fun k => (v.id, k)) = .ok p ↔
      (v.attributes.shape = c.placeShape ∨ v.attributes.shape = c.transitionShape) ∧
        p = (v.id, kindOf c v) := by
  simp only [map_eq_ok_iff, drawnKind_eq_ok_iff, and_assoc, exists_and_left, exists_eq_left,
    eq_comm (b := p)]

theorem lookup_kinds {v : Node} (hv : v ∈ g.nodes) :
    (g.nodes.map fun v => (v.id, kindOf c v)).lookup v.id = some (kindOf c v) := by
  have hids : ((g.nodes.map fun v => (v.id, kindOf c v)).map Prod.fst).Nodup := by
    rw [List.map_map]
    exact g.map_id_nodes ▸ g.table.keys_nodup
  exact (KeyedList.lookup_eq_some_iff hids).mpr (List.mem_map.mpr ⟨v, hv, rfl⟩)

theorem checkEdge_eq_ok_iff {e : Edge} {v w : Node} (hv : v ∈ g.nodes) (hw : w ∈ g.nodes)
    (hsource : v.id = e.source) (htarget : w.id = e.target) :
    checkEdge (g.nodes.map fun v => (v.id, kindOf c v)) e = .ok ⟨⟩ ↔ kindOf c v ≠ kindOf c w := by
  rw [checkEdge, ← hsource, ← htarget, lookup_kinds hv, lookup_kinds hw]
  by_cases h : kindOf c v = kindOf c w <;> simp [h]

theorem isNet_iff_exists :
    g.isNet c = true ↔
      ∃ kinds, g.nodes.mapM (fun v => (drawnKind c v).map fun k => (v.id, k)) = .ok kinds ∧
        g.edges.forM (checkEdge kinds) = .ok ⟨⟩ := by
  unfold isNet checkShape
  cases g.nodes.mapM fun v => (drawnKind c v).map fun k => (v.id, k) with
  | error e => simp [bind, Except.bind, Except.isOk, Except.toBool]
  | ok kinds =>
    simp only [bind, Except.bind, Except.ok.injEq, exists_eq_left']
    cases g.edges.forM (checkEdge kinds) <;> simp [Except.isOk, Except.toBool]

/-- A graph is drawn like a net if all shapes are known and all edges run between different
kinds. -/
theorem isNet_iff :
    g.isNet c = true ↔
      (∀ v ∈ g.nodes,
        v.attributes.shape = c.placeShape ∨ v.attributes.shape = c.transitionShape) ∧
      ∀ e ∈ g.edges, ∀ v ∈ g.nodes, ∀ w ∈ g.nodes, v.id = e.source → w.id = e.target →
        kindOf c v ≠ kindOf c w := by
  simp only [isNet_iff_exists, forM_eq_ok_iff,
    mapM_eq_ok_iff fun _ _ h => (map_drawnKind_eq_ok_iff.mp h).2, map_drawnKind_eq_ok_iff,
    and_true, and_assoc, exists_and_left, exists_eq_left]
  refine and_congr_right fun _ => forall₂_congr fun e he => ?_
  constructor
  · intro h v hv w hw hsource htarget
    exact (checkEdge_eq_ok_iff hv hw hsource htarget).mp h
  · intro h
    obtain ⟨v, hv, hsource⟩ := mem_ids.mp (g.source_mem e he)
    obtain ⟨w, hw, htarget⟩ := mem_ids.mp (g.target_mem e he)
    exact (checkEdge_eq_ok_iff hv hw hsource htarget).mpr (h v hv w hw hsource htarget)

end Graph

/-! ### Circles and boxes -/

namespace Node

def isCircle (v : Node) : Bool :=
  v.attributes.shape = "circle"

def isBox (v : Node) : Bool :=
  v.attributes.shape = "box"

def hasPlaceName (v : Node) : Bool :=
  Text.startsWith v.id "p"

theorem isBox_eq_not_isCircle {v : Node}
    (h : v.attributes.shape = "circle" ∨ v.attributes.shape = "box") :
    v.isBox = !v.isCircle := by
  rcases h with h | h <;> simp [isCircle, isBox, h]

end Node

namespace Graph

variable {g : Graph}

theorem isTransition_eq {v : Node}
    (h : v.attributes.shape = "circle" ∨ v.attributes.shape = "box") :
    ({} : Conventions).isTransition v = (v.isBox && !v.hasPlaceName) := by
  have heq : ({} : Conventions).isTransition v =
      (!(v.isCircle || v.hasPlaceName) && (v.isBox || Text.startsWith v.id "t")) := rfl
  rw [heq, Node.isBox_eq_not_isCircle h]
  cases v.isCircle <;> simp

theorem isCircle_ne_of_isNet (h : g.isNet {} = true) {e : Edge} (he : e ∈ g.edges) {v w : Node}
    (hv : v ∈ g.nodes) (hw : w ∈ g.nodes) (hsource : v.id = e.source) (htarget : w.id = e.target) :
    v.isCircle ≠ w.isCircle := by
  intro hsame
  apply (isNet_iff.mp h).2 e he v hv w hw hsource htarget
  have hkind : ∀ v, kindOf {} v = if v.isCircle then .place else .transition := fun v => by
    simp [kindOf, Node.isCircle]
  rw [hkind, hkind, hsame]

theorem readsOff_toNet_of_isNet (h : g.isNet {} = true) :
    (g.toNet {}).ReadsOff g (fun v => v.isCircle || v.hasPlaceName)
      (fun v => v.isBox && !v.hasPlaceName) :=
  (readsOff_toNet g {}).congr (fun _ _ => rfl) fun v hv =>
    isTransition_eq ((isNet_iff.mp h).1 v hv)

theorem hasArc_iff_of_isNet (h : g.isNet {} = true) {e : Edge} (he : e ∈ g.edges) :
    (g.toNet {}).HasArc e ↔ ∀ v ∈ g.nodes, v.id = e.source ∨ v.id = e.target → v.isBox = true →
      v.hasPlaceName = false := by
  obtain ⟨v, hv, hsource⟩ := mem_ids.mp (g.source_mem e he)
  obtain ⟨w, hw, htarget⟩ := mem_ids.mp (g.target_mem e he)
  have hends : (∀ u ∈ g.nodes, u.id = e.source ∨ u.id = e.target → u.isBox = true →
      u.hasPlaceName = false) ↔
      (v.isBox = true → v.hasPlaceName = false) ∧ (w.isBox = true → w.hasPlaceName = false) := by
    constructor
    · exact fun hall => ⟨hall v hv (Or.inl hsource), hall w hw (Or.inr htarget)⟩
    · rintro ⟨hv', hw'⟩ u hu (hid | hid)
      · rwa [eq_of_id hu hv (hid.trans hsource.symm)]
      · rwa [eq_of_id hu hw (hid.trans htarget.symm)]
  have hshape := (isNet_iff.mp h).1
  have hkinds := isCircle_ne_of_isNet h he hv hw hsource htarget
  rw [(readsOff_toNet_of_isNet h).hasArc_iff he hv hw hsource htarget, hends,
    Node.isBox_eq_not_isCircle (hshape v hv), Node.isBox_eq_not_isCircle (hshape w hw)]
  -- One of the ends is a circle, and the other is a box that may have the name of a place.
  cases hvc : v.isCircle <;> cases hwc : w.isCircle <;> simp_all

/-- A graph that is drawn like a net is read without loss unless a box has the name of a place.
Such a box becomes a place, and its edges become no arcs. -/
theorem readsOff_iff_of_isNet (h : g.isNet {} = true) :
    (g.toNet {}).ReadsOff g (fun v => v.isCircle || v.hasPlaceName)
        (fun v => v.isBox && !v.hasPlaceName) ∧
      (∀ e ∈ g.edges, (g.toNet {}).HasArc e ↔ ∀ v ∈ g.nodes, v.id = e.source ∨ v.id = e.target →
        v.isBox = true → v.hasPlaceName = false) ∧
      ((∀ v ∈ g.nodes, v.isBox = true → v.hasPlaceName = false) ↔
        (g.toNet {}).ReadsOff g Node.isCircle Node.isBox ∧
          ∀ e ∈ g.edges, (g.toNet {}).HasArc e) := by
  have hread := readsOff_toNet_of_isNet h
  have hshape := (isNet_iff.mp h).1
  refine ⟨hread, fun e he => hasArc_iff_of_isNet h he, fun hnames => ?_, ?_⟩
  · refine ⟨hread.congr (fun v hv => ?_) fun v hv => ?_, fun e he => ?_⟩
    · have hbox := Node.isBox_eq_not_isCircle (hshape v hv)
      cases hcircle : v.isCircle with
      | true => rfl
      | false => exact hnames v hv (by rw [hbox, hcircle]; rfl)
    · cases hbox : v.isBox with
      | true => rw [hnames v hv hbox]; rfl
      | false => rfl
    · exact (hasArc_iff_of_isNet h he).mpr fun v hv _ => hnames v hv
  · rintro ⟨hdrawn, -⟩ v hv hbox
    have hcircle : v.isCircle = false := by
      simpa [hbox] using Node.isBox_eq_not_isCircle (hshape v hv)
    have hplace := (hread.mem_places_iff hv).symm.trans (hdrawn.mem_places_iff hv)
    simpa [hcircle] using hplace

/-- The producer `t1` takes from `p1` and puts two tokens into the buffer `p2`, from which the
consumer `t2` takes one at a time. -/
def producerConsumer : Graph where
  table := .ofList [("p1", .ofList [("shape", "circle")]), ("p2", .ofList [("shape", "circle")]),
    ("p3", .ofList [("shape", "circle")]), ("t1", .ofList [("shape", "box")]),
    ("t2", .ofList [("shape", "box")])]
  edges := [⟨"p1", "t1", .empty⟩, ⟨"t1", "p2", .empty⟩, ⟨"t1", "p2", .empty⟩,
    ⟨"p2", "t2", .empty⟩, ⟨"t2", "p3", .empty⟩]
  source_mem := by decide
  target_mem := by decide

theorem readsOff_producerConsumer :
    producerConsumer.isNet {} = true ∧
      (producerConsumer.toNet {}).ReadsOff producerConsumer Node.isCircle Node.isBox ∧
      ∀ e ∈ producerConsumer.edges, (producerConsumer.toNet {}).HasArc e := by
  have hnet : producerConsumer.isNet {} = true := by decide +kernel
  exact ⟨hnet, (readsOff_iff_of_isNet hnet).2.2.mp (by decide +kernel)⟩

def misnamedBox : Graph where
  table := .ofList [("c", .ofList [("shape", "circle")]), ("p1", .ofList [("shape", "box")])]
  edges := [⟨"c", "p1", .empty⟩]
  source_mem := by decide
  target_mem := by decide

/-- The box is read as a place, and the edge to it is lost. -/
theorem not_readsOff_misnamedBox :
    misnamedBox.isNet {} = true ∧ (misnamedBox.toNet {}).placeNames = ["c", "p1"] ∧
      (misnamedBox.toNet {}).transitionNames = [] ∧
      ¬ (misnamedBox.toNet {}).ReadsOff misnamedBox Node.isCircle Node.isBox ∧
      ¬ ∀ e ∈ misnamedBox.edges, (misnamedBox.toNet {}).HasArc e := by
  have hnet : misnamedBox.isNet {} = true := by decide +kernel
  have htransitions : (misnamedBox.toNet {}).transitionNames = [] := by decide +kernel
  refine ⟨hnet, by decide +kernel, htransitions, fun hread => ?_, fun harcs => ?_⟩
  · have hboxes := hread.transitionNames
    rw [htransitions] at hboxes
    exact absurd hboxes (by decide +kernel)
  · have he : ⟨"c", "p1", .empty⟩ ∈ misnamedBox.edges := List.mem_singleton.mpr rfl
    exact absurd ((hasArc_iff_of_isNet hnet he).mp (harcs _ he)) (by decide +kernel)

end Graph

end DrawnModels
