import DrawnModels.Proofs.Collection.Occurrences
import DrawnModels.Proofs.Graph.Drafts

/-!
# Building graphs call by call

A draft is written by calls that add records at its end. It is at fault if an identifier is blank or
if two declarations of a node contradict each other, and then the first declaration at fault is
reported, or else that an end of an edge is blank. Otherwise the graph lists the declared nodes and
after them the other ends of edges, each where it is first named.
-/

namespace DrawnModels

namespace Draft

/-! ### Calls -/

/-- A call that adds records to a draft. -/
inductive Call
  | node (id : String) (attributes : List (String × String))
  | shapedNodes (shapes : List (String × String))
  | edgeWith (source target : String) (attributes : List (String × String))
  | edge (source label target : String)
  | labelledEdges (triples : List (String × String × String))
  | arcs (ends : List (String × String))

namespace Call

def addTo (d : Draft) : Call → Draft
  | node id attributes => d.node id attributes
  | shapedNodes shapes => d.shapedNodes shapes
  | edgeWith source target attributes => d.edgeWith source target attributes
  | edge source label target => d.edge source label target
  | labelledEdges triples => d.labelledEdges triples
  | arcs ends => d.arcs ends

def nodes : Call → List Node
  | node id attributes => [⟨id, .ofList attributes⟩]
  | shapedNodes shapes => shapes.map fun n => ⟨n.1, .ofList [("shape", n.2)]⟩
  | edgeWith _ _ _ | edge _ _ _ | labelledEdges _ | arcs _ => []

def edges : Call → List Edge
  | node _ _ | shapedNodes _ => []
  | edgeWith source target attributes => [⟨source, target, .ofList attributes⟩]
  | edge source label target => [⟨source, target, .ofList [("label", label)]⟩]
  | labelledEdges triples => triples.map fun e => ⟨e.1, e.2.2, .ofList [("label", e.2.1)]⟩
  | arcs ends => ends.map fun a => ⟨a.1, a.2, .ofList []⟩

end Call

def ofCalls (calls : List Call) : Draft :=
  calls.foldl Call.addTo empty

theorem foldl_eq {α : Type} {f : Draft → α → Draft} (nodes : α → List Node) (edges : α → List Edge)
    (h : ∀ d a, f d a = ⟨d.nodes ++ nodes a, d.edges ++ edges a⟩) (l : List α) (d : Draft) :
    l.foldl f d = ⟨d.nodes ++ l.flatMap nodes, d.edges ++ l.flatMap edges⟩ := by
  induction l generalizing d with
  | nil => simp
  | cons a l ih => simp [ih, h]

theorem shapedNodes_eq (d : Draft) (shapes : List (String × String)) :
    d.shapedNodes shapes =
      ⟨d.nodes ++ shapes.map fun n => ⟨n.1, .ofList [("shape", n.2)]⟩, d.edges⟩ := by
  rw [shapedNodes, foldl_eq (fun n => [⟨n.1, .ofList [("shape", n.2)]⟩]) (fun _ => [])
    (fun d n => by simp [node])]
  simp [List.map_eq_flatMap]

theorem labelledEdges_eq (d : Draft) (triples : List (String × String × String)) :
    d.labelledEdges triples =
      ⟨d.nodes, d.edges ++ triples.map fun e => ⟨e.1, e.2.2, .ofList [("label", e.2.1)]⟩⟩ := by
  rw [labelledEdges, foldl_eq (fun _ => []) (fun e => [⟨e.1, e.2.2, .ofList [("label", e.2.1)]⟩])
    (fun d e => by simp [edge, edgeWith])]
  simp [List.map_eq_flatMap]

theorem arcs_eq (d : Draft) (pairs : List (String × String)) :
    d.arcs pairs = ⟨d.nodes, d.edges ++ pairs.map fun a => ⟨a.1, a.2, .ofList []⟩⟩ := by
  rw [arcs, foldl_eq (fun _ => []) (fun a => [⟨a.1, a.2, .ofList []⟩])
    (fun d a => by simp [edgeWith])]
  simp [List.map_eq_flatMap]

theorem Call.addTo_eq (d : Draft) (c : Call) :
    c.addTo d = ⟨d.nodes ++ c.nodes, d.edges ++ c.edges⟩ := by
  cases c with
  | node id attributes => simp [addTo, Draft.node, nodes, edges]
  | shapedNodes shapes => simp [addTo, shapedNodes_eq, nodes, edges]
  | edgeWith source target attributes => simp [addTo, Draft.edgeWith, nodes, edges]
  | edge source label target => simp [addTo, Draft.edge, Draft.edgeWith, nodes, edges]
  | labelledEdges triples => simp [addTo, labelledEdges_eq, nodes, edges]
  | arcs ends => simp [addTo, arcs_eq, nodes, edges]

theorem ofCalls_eq (calls : List Call) :
    ofCalls calls = ⟨calls.flatMap Call.nodes, calls.flatMap Call.edges⟩ := by
  rw [ofCalls, foldl_eq Call.nodes Call.edges Call.addTo_eq]
  rfl

/-! ### Declarations -/

variable {d : Draft} {g : Graph} {table t : KeyedList String Attributes} {nodes : List Node}
  {n : Node} {err : AdaptError}

/-- No identifier is blank, and declarations of the same node read alike. -/
structure Consistent (nodes : List Node) : Prop where
  named : ∀ n ∈ nodes, Text.trim n.id ≠ ""
  readsLike : ∀ m ∈ nodes, ∀ n ∈ nodes, m.id = n.id → m.attributes.ReadsLike n.attributes

/-- What is at fault with a declaration that comes after others. -/
inductive Fault (earlier : List Node) (n : Node) : AdaptError → Prop
  | emptyIdentifier (hblank : Text.trim n.id = "") : Fault earlier n .emptyIdentifier
  | conflictingDeclaration {m : Node} (hnamed : Text.trim n.id ≠ "") (hm : m ∈ earlier)
      (hid : m.id = n.id) (hdiffers : ¬ m.attributes.ReadsLike n.attributes) :
      Fault earlier n (.conflictingDeclaration n.id)

theorem fault_iff {earlier : List Node} :
    Fault earlier n err ↔ Text.trim n.id = "" ∧ err = .emptyIdentifier ∨
      Text.trim n.id ≠ "" ∧ err = .conflictingDeclaration n.id ∧
        ∃ m ∈ earlier, m.id = n.id ∧ ¬ m.attributes.ReadsLike n.attributes := by
  constructor
  · intro hfault
    cases hfault with
    | emptyIdentifier hblank => exact Or.inl ⟨hblank, rfl⟩
    | conflictingDeclaration hnamed hm hid hdiffers =>
      exact Or.inr ⟨hnamed, rfl, _, hm, hid, hdiffers⟩
  · rintro (⟨hblank, rfl⟩ | ⟨hnamed, rfl, m, hm, hid, hdiffers⟩)
    · exact .emptyIdentifier hblank
    · exact .conflictingDeclaration hnamed hm hid hdiffers

theorem declare_error_iff :
    declare table n = .error err ↔ Text.trim n.id = "" ∧ err = .emptyIdentifier ∨
      Text.trim n.id ≠ "" ∧ err = .conflictingDeclaration n.id ∧
        ∃ first, table.find? n.id = some first ∧ ¬ first.ReadsLike n.attributes := by
  unfold declare
  split
  · rename_i hblank
    simp [hblank, eq_comm]
  · rename_i hnamed
    rw [or_iff_right fun h => hnamed h.1, and_iff_right hnamed]
    cases hfirst : table.find? n.id with
    | none => simp
    | some first =>
      simp only [Option.some.injEq, exists_eq_left', ← Attributes.agrees_iff]
      split
      · rename_i hagrees
        simp [hagrees]
      · rename_i hdiffers
        rw [Except.error.injEq, eq_comm, and_iff_left hdiffers]

theorem Consistent.not_fault {earlier later : List Node}
    (h : Consistent (earlier ++ n :: later)) : ¬ Fault earlier n err := by
  intro hfault
  cases hfault with
  | emptyIdentifier hblank => exact h.named n (by simp) hblank
  | @conflictingDeclaration m _ hm hid hdiffers =>
    exact hdiffers (h.readsLike m (by simp [hm]) n (by simp) hid)

theorem keys_eq_eraseDups_concat {ids : List String} {id : String} (h : table.keys = ids.eraseDups)
    (ht : t.keys = if id ∈ table.keys then table.keys else table.keys ++ [id]) :
    t.keys = (ids ++ [id]).eraseDups := by
  simp only [ht, h, List.mem_eraseDups, eraseDups_concat]

/-- A table holds what is declared of each node first, and no declaration is at fault. -/
structure Registers (nodes : List Node) (table : KeyedList String Attributes) : Prop
    extends Declares nodes table where
  named : ∀ n ∈ nodes, Text.trim n.id ≠ ""
  keys : table.keys = (nodes.map Node.id).eraseDups
  find?_eq : ∀ id, table.find? id = (nodes.find? (·.id = id)).map Node.attributes

namespace Registers

theorem empty : Registers [] .empty where
  readsLike := by simp
  declared := by simp
  named := by simp
  keys := rfl
  find?_eq _ := rfl

theorem consistent (h : Registers nodes table) : Consistent nodes where
  named := h.named
  readsLike m hm n hn hid := by
    obtain ⟨a, ha, ham⟩ := h.readsLike m hm
    obtain ⟨b, hb, hbn⟩ := h.readsLike n hn
    rw [hid, hb] at ha
    cases ha
    exact fun key => (ham key).symm.trans (hbn key)

theorem declare (h : Registers nodes table) (hok : declare table n = .ok t) :
    Registers (nodes ++ [n]) t where
  toDeclares := h.toDeclares.declare hok
  named m hm := by
    rcases List.mem_append.mp hm with hm | hm
    · exact h.named m hm
    · obtain rfl := List.mem_singleton.mp hm
      intro hblank
      rw [Draft.declare, if_pos hblank] at hok
      cases hok
  keys := by
    rw [List.map_append, List.map_singleton]
    apply keys_eq_eraseDups_concat h.keys
    rcases declare_cases hok with ⟨-, rfl⟩ | ⟨first, hfirst, -, rfl⟩
    · exact KeyedList.keys_insert table n.id n.attributes
    · exact (if_pos (KeyedList.mem_keys_iff.mpr ⟨first, hfirst⟩)).symm
  find?_eq id := by
    rw [List.find?_append, Option.map_or, ← h.find?_eq]
    rcases declare_cases hok with ⟨hnew, rfl⟩ | ⟨first, hfirst, -, rfl⟩
    · rw [KeyedList.find?_insert]
      by_cases hid : id = n.id
      · simp [hid, hnew]
      · simp [hid, Ne.symm hid]
    · by_cases hid : id = n.id
      · simp [hid, hfirst]
      · simp [Ne.symm hid]

/-- A declaration differs from the node in the table if it differs from any that came before. -/
theorem exists_differs_iff (h : Registers nodes table) :
    (∃ first, table.find? n.id = some first ∧ ¬ first.ReadsLike n.attributes) ↔
      ∃ m ∈ nodes, m.id = n.id ∧ ¬ m.attributes.ReadsLike n.attributes := by
  constructor
  · rintro ⟨first, hfirst, hdiffers⟩
    obtain ⟨m, hm, rfl⟩ := Option.map_eq_some_iff.mp (h.find?_eq n.id ▸ hfirst)
    exact ⟨m, List.mem_of_find?_eq_some hm, by simpa using List.find?_some hm, hdiffers⟩
  · rintro ⟨m, hm, hid, hdiffers⟩
    obtain ⟨first, hfirst, hreads⟩ := h.readsLike m hm
    refine ⟨first, hid ▸ hfirst, fun hsame => hdiffers fun key => ?_⟩
    exact (hreads key).symm.trans (hsame key)

theorem declare_eq_error_iff (h : Registers nodes table) :
    Draft.declare table n = .error err ↔ Fault nodes n err := by
  rw [declare_error_iff, h.exists_differs_iff, fault_iff]

end Registers

theorem judges_declare : Judges declare .empty Registers Consistent Fault where
  start := Registers.empty
  step _ _ _ _ := Registers.declare
  good _ _ := Registers.consistent
  error_iff _ _ _ _ := Registers.declare_eq_error_iff
  not_fault _ _ _ _ := Consistent.not_fault

/-! ### Ends of edges -/

/-- A table holds the nodes of another and in addition the identifiers that are mentioned, of which
none is blank. -/
structure Adds (ids mentioned : List String) (table t : KeyedList String Attributes) : Prop
    extends Extends table t where
  named : ∀ id ∈ mentioned, Text.trim id ≠ ""
  keys : t.keys = (ids ++ mentioned).eraseDups

variable {ids mentioned : List String} {id : String}

theorem mention_eq_error_iff :
    mention table id = .error err ↔ Text.trim id = "" ∧ err = .emptyIdentifier := by
  unfold mention
  split
  · rename_i hblank
    simp [hblank, eq_comm]
  · rename_i hnamed
    split <;> simp [hnamed]

namespace Adds

theorem nil (h : table.keys = ids.eraseDups) : Adds ids [] table table where
  kept _ _ := fun h => h
  added _ _ := Or.inl
  named := by simp
  keys := by rw [List.append_nil, h]

theorem mention {t' : KeyedList String Attributes} (h : Adds ids mentioned table t)
    (hok : mention t id = .ok t') : Adds ids (mentioned ++ [id]) table t' where
  toExtends := h.toExtends.mention hok
  named j hj := by
    rcases List.mem_append.mp hj with hj | hj
    · exact h.named j hj
    · obtain rfl := List.mem_singleton.mp hj
      intro hblank
      rw [mention_eq_error_iff.mpr ⟨hblank, rfl⟩] at hok
      cases hok
  keys := by
    rw [← List.append_assoc]
    apply keys_eq_eraseDups_concat h.keys
    rcases mention_cases hok with rfl | ⟨-, rfl⟩
    · exact (if_pos ((mem_keys_of_mention hok id).mpr (Or.inl rfl))).symm
    · exact KeyedList.keys_insert t id .empty

end Adds

theorem judges_mention (h : table.keys = ids.eraseDups) :
    Judges mention table (fun done t => Adds ids done table t)
      (fun done => ∀ id ∈ done, Text.trim id ≠ "")
      (fun _ id err => Text.trim id = "" ∧ err = .emptyIdentifier) where
  start := Adds.nil h
  step _ _ _ _ := Adds.mention
  good _ _ := Adds.named
  error_iff _ _ _ _ _ := mention_eq_error_iff
  not_fault _ id _ _ hnamed hfault := hnamed id (by simp) hfault.1

theorem foldlM_mention_eq_error_iff (h : table.keys = ids.eraseDups) :
    mentioned.foldlM mention table = .error err ↔
      (∃ id ∈ mentioned, Text.trim id = "") ∧ err = .emptyIdentifier := by
  rw [(judges_mention h).foldlM_eq_error_iff]
  constructor
  · rintro ⟨earlier, id, later, rfl, -, hblank, rfl⟩
    exact ⟨⟨id, by simp, hblank⟩, rfl⟩
  · rintro ⟨hblank, rfl⟩
    obtain ⟨earlier, id, later, hmentioned, hid, hearlier⟩ := exists_first hblank
    exact ⟨earlier, id, later, hmentioned, hearlier, hid, rfl⟩

/-! ### The graph -/

/-- Some identifier is blank, or two declarations of one node do not read alike. -/
def IsFaulty (d : Draft) : Prop :=
  (∃ n ∈ d.nodes, Text.trim n.id = "") ∨
    (∃ e ∈ d.edges, Text.trim e.source = "" ∨ Text.trim e.target = "") ∨
      ∃ m ∈ d.nodes, ∃ n ∈ d.nodes, m.id = n.id ∧ ¬ m.attributes.ReadsLike n.attributes

/-- What is at fault first. All declarations come before all edges. -/
inductive FirstFault (d : Draft) : AdaptError → Prop
  | node {earlier later : List Node} {n : Node} {err : AdaptError}
      (hnodes : d.nodes = earlier ++ n :: later) (hconsistent : Consistent earlier)
      (hfault : Fault earlier n err) : FirstFault d err
  | edge {e : Edge} (hconsistent : Consistent d.nodes) (he : e ∈ d.edges)
      (hblank : Text.trim e.source = "" ∨ Text.trim e.target = "") :
      FirstFault d .emptyIdentifier

/-- The graph lists the nodes as they are declared first, and after them, without attributes, the
other ends of edges as they are mentioned first. Its edges are those of the draft. -/
structure Builds (d : Draft) (g : Graph) : Prop where
  ids : g.ids = (d.nodes.map Node.id).eraseDups ++
    ((d.edges.flatMap fun e => [e.source, e.target]).filter
      (· ∉ d.nodes.map Node.id)).eraseDups
  nodup : g.ids.Nodup
  declared : ∀ v ∈ g.nodes, ∀ first, d.nodes.find? (·.id = v.id) = some first → v = first
  undeclared : ∀ v ∈ g.nodes, (∀ n ∈ d.nodes, n.id ≠ v.id) → v.attributes = .empty
  edges : g.edges = d.edges
  exists_ends : ∀ e ∈ d.edges, (∃ v ∈ g.nodes, v.id = e.source) ∧ ∃ v ∈ g.nodes, v.id = e.target

theorem exists_blank_end_iff {edges : List Edge} :
    (∃ id ∈ ends edges, Text.trim id = "") ↔
      ∃ e ∈ edges, Text.trim e.source = "" ∨ Text.trim e.target = "" := by
  simp only [mem_ends]
  constructor
  · rintro ⟨id, ⟨e, he, rfl | rfl⟩, hblank⟩
    · exact ⟨e, he, Or.inl hblank⟩
    · exact ⟨e, he, Or.inr hblank⟩
  · rintro ⟨e, he, hblank | hblank⟩
    · exact ⟨e.source, ⟨e, he, Or.inl rfl⟩, hblank⟩
    · exact ⟨e.target, ⟨e, he, Or.inr rfl⟩, hblank⟩

theorem build_error_cases :
    d.build = .error err ↔ d.nodes.foldlM declare .empty = .error err ∨
      ∃ declared, d.nodes.foldlM declare .empty = .ok declared ∧
        (ends d.edges).foldlM mention declared = .error err := by
  unfold build
  cases hdeclared : d.nodes.foldlM declare .empty with
  | error e => simp
  | ok declared =>
    simp only [reduceCtorEq, false_or, Except.ok.injEq, exists_eq_left']
    split
    · rename_i e he
      rw [he, Except.error.injEq, Except.error.injEq]
    · rename_i table htable
      simp [htable]

/-- What is reported is the first fault. -/
theorem build_eq_error_iff : d.build = .error err ↔ d.FirstFault err := by
  rw [build_error_cases, judges_declare.foldlM_eq_error_iff]
  constructor
  · rintro (⟨earlier, n, later, hnodes, hconsistent, hfault⟩ | ⟨declared, hok, herror⟩)
    · exact .node hnodes hconsistent hfault
    · have hregisters := judges_declare.of_foldlM_eq_ok hok
      obtain ⟨hblank, rfl⟩ := (foldlM_mention_eq_error_iff hregisters.keys).mp herror
      obtain ⟨e, he, hblank⟩ := exists_blank_end_iff.mp hblank
      exact .edge hregisters.consistent he hblank
  · intro hfault
    cases hfault with
    | node hnodes hconsistent hfault => exact Or.inl ⟨_, _, _, hnodes, hconsistent, hfault⟩
    | edge hconsistent he hblank =>
      obtain ⟨declared, hok⟩ := judges_declare.exists_foldlM_iff.mpr hconsistent
      have hends := exists_blank_end_iff.mpr ⟨_, he, hblank⟩
      have hkeys := (judges_declare.of_foldlM_eq_ok hok).keys
      exact Or.inr ⟨declared, hok, (foldlM_mention_eq_error_iff hkeys).mpr ⟨hends, rfl⟩⟩

theorem FirstFault.isFaulty (h : d.FirstFault err) : d.IsFaulty := by
  cases h with
  | @node _ _ n _ hnodes _ hfault =>
    have hn : n ∈ d.nodes := by simp [hnodes]
    cases hfault with
    | emptyIdentifier hblank => exact Or.inl ⟨n, hn, hblank⟩
    | @conflictingDeclaration m _ hm hid hdiffers =>
      exact Or.inr (Or.inr ⟨m, by simp [hnodes, hm], n, hn, hid, hdiffers⟩)
  | edge _ he hblank => exact Or.inr (Or.inl ⟨_, he, hblank⟩)

theorem IsFaulty.exists_firstFault (h : d.IsFaulty) : ∃ err, d.FirstFault err := by
  rcases judges_declare.foldlM_cases d.nodes with
    ⟨table, -, hregisters⟩ | ⟨earlier, n, later, err, hnodes, hconsistent, hfault, -⟩
  · have hconsistent := hregisters.consistent
    rcases h with ⟨n, hn, hblank⟩ | ⟨e, he, hblank⟩ | ⟨m, hm, n, hn, hid, hdiffers⟩
    · exact absurd hblank (hconsistent.named n hn)
    · exact ⟨_, .edge hconsistent he hblank⟩
    · exact absurd (hconsistent.readsLike m hm n hn hid) hdiffers
  · exact ⟨err, .node hnodes hconsistent hfault⟩

theorem builds_of_build (h : d.build = .ok g) : d.Builds g := by
  have hdescribes := describes_of_build h
  obtain ⟨declared, hdeclared, htable, hedges⟩ := exists_declared_of_build h
  have hregisters := judges_declare.of_foldlM_eq_ok hdeclared
  have hadds : Adds (d.nodes.map Node.id) (ends d.edges) declared g.table :=
    (judges_mention hregisters.keys).of_foldlM_eq_ok htable
  have hends : ∀ e ∈ d.edges, ∀ id, e.source = id ∨ e.target = id → ∃ v ∈ g.nodes, v.id = id :=
    fun e he id hid => Graph.mem_ids.mp ((hdescribes.mem_ids id).mpr (Or.inr ⟨e, he, hid⟩))
  refine ⟨?_, g.table.keys_nodup, fun v hv first hfirst => ?_, hdescribes.undeclared, hedges,
    fun e he => ⟨hends e he _ (Or.inl rfl), hends e he _ (Or.inr rfl)⟩⟩
  · rw [Graph.ids, hadds.keys, List.eraseDups_append, List.removeAll]
    simp only [List.elem_eq_mem, decide_not, ends]
  · have hid : first.id = v.id := by simpa using List.find?_some hfirst
    have hkept := hadds.kept v.id first.attributes (by rw [hregisters.find?_eq, hfirst]; rfl)
    rw [Graph.mem_nodes.mp hv, Option.some.injEq] at hkept
    cases v
    cases first
    cases hid
    cases hkept
    rfl

/-- The records of a draft are those of the calls, in order. No graph is built if and only if the
draft is faulty, and then the first fault is reported. Otherwise the graph lists the declared nodes
and after them the other ends of edges, and has the edges of the draft. -/
theorem build_ofCalls (calls : List Call) :
    ofCalls calls = ⟨calls.flatMap Call.nodes, calls.flatMap Call.edges⟩ ∧
      ((∃ err, (ofCalls calls).build = .error err) ↔ (ofCalls calls).IsFaulty) ∧
      (∀ err, (ofCalls calls).build = .error err ↔ (ofCalls calls).FirstFault err) ∧
      ∀ g, (ofCalls calls).build = .ok g → (ofCalls calls).Builds g := by
  refine ⟨ofCalls_eq calls, ?_, fun err => build_eq_error_iff, fun g => builds_of_build⟩
  constructor
  · rintro ⟨err, herror⟩
    exact (build_eq_error_iff.mp herror).isFaulty
  · intro hfaulty
    obtain ⟨err, hfirst⟩ := hfaulty.exists_firstFault
    exact ⟨err, build_eq_error_iff.mpr hfirst⟩

end Draft

end DrawnModels
