import DrawnModels.Proofs.Automaton.Tables
import DrawnModels.Proofs.Automaton.Validated

/-!
# Reading with every access checked

While the edges of a graph are read, the rows tabulate the moves so far. The ends of the edges are
nodes, so they have numbers and rows, and a symbol has a position once it has been added. So nothing
is missing, and reading with every access checked gives the same automaton or the same error.
-/

namespace DrawnModels

namespace Checked

variable {g : Graph} {c : Conventions} {t : MoveTable String} {r : Reading}

theorem find?_numbering_ids {id : String} (hid : id ∈ g.ids) :
    (numbering g.ids).find? id = some (g.indexOf id) :=
  find?_numbering g.table.keys_nodup hid

theorem nameOf_ids {q : Nat} {id : String} (hq : g.ids[q]? = some id) :
    nameOf (numbering g.ids) q = id :=
  nameOf_numbering g.table.keys_nodup hq

theorem nameOf_indexOf {id : String} (hid : id ∈ g.ids) :
    nameOf (numbering g.ids) (g.indexOf id) = id :=
  nameOf_ids (Graph.getElem?_indexOf hid)

/-! ### Edges -/

/-- The tables have the moves recorded so far, the symbols seen so far, and the ends of the edges
that were begun. -/
structure Reads (g : Graph) (begun : List Edge) (symbols : List String) (t : MoveTable String)
    (r : Reading) : Prop where
  alphabet : r.alphabet = symbols.eraseDups
  tabulates : Tabulates g.ids r.alphabet t r.rows
  mem_touched : ∀ q, q ∈ r.touched ↔
    ∃ e ∈ begun, q = g.indexOf e.source ∨ q = g.indexOf e.target

theorem reads_empty (g : Graph) :
    Reads g [] [] .empty ⟨[], List.replicate g.ids.length .empty, .empty⟩ :=
  ⟨rfl, tabulates_empty g.ids [], by simp⟩

variable {begun : List Edge} {symbols : List String}

theorem Reads.readSymbol (h : Reads g begun symbols t r) {e : Edge} (he : e ∈ g.edges)
    (a : String) :
    Follows .rejected (Reads g begun (symbols ++ [a])) (Graph.readSymbol e t a)
      (readSymbol (numbering g.ids) (g.indexOf e.source) (g.indexOf e.target) r a) := by
  have hsource := g.source_mem e he
  have htarget := g.target_mem e he
  have hclash : ∀ first ∈ g.ids,
      clashStop (numbering g.ids) (g.indexOf e.source) a (g.indexOf e.target) (g.indexOf first) =
        .rejected (.nondeterministic ⟨e.source, a, first, e.target⟩) := by
    intro first hfirst
    rw [clashStop, nameOf_indexOf hsource, nameOf_indexOf htarget, nameOf_indexOf hfirst]
  have hrecord : Follows (fun k => .rejected (.nondeterministic k))
      (Tabulates g.ids (withSymbol r.alphabet a)) (t.record e.source a e.target)
      (record (clashStop (numbering g.ids) (g.indexOf e.source) a (g.indexOf e.target)) r.rows
        (g.indexOf e.source) ((withSymbol r.alphabet a).idxOf a) (g.indexOf e.target)) :=
    (h.tabulates.withSymbol a).record g.table.keys_nodup (Graph.getElem?_indexOf hsource)
      (mem_withSymbol_self r.alphabet a) htarget hclash
  apply (hrecord.mapError ValidationError.nondeterministic Stop.rejected).map_right
  intro t' rows ht
  refine ⟨?_, ht, h.mem_touched⟩
  rw [eraseDups_append_singleton, ← h.alphabet]

theorem Reads.begin (h : Reads g begun symbols t r) (e : Edge) :
    Reads g (begun ++ [e]) symbols t { r with
      touched := (r.touched.insert (g.indexOf e.source)).insert (g.indexOf e.target) } where
  alphabet := h.alphabet
  tabulates := h.tabulates
  mem_touched q := by
    simp only [SortedSet.mem_insert, h.mem_touched, List.mem_append, List.mem_singleton,
      or_and_right, exists_or, exists_eq_left, or_comm, or_left_comm, or_assoc]

theorem Reads.readEdge (h : Reads g begun symbols t r) {e : Edge} (he : e ∈ g.edges) :
    Follows .rejected (Reads g (begun ++ [e]) (symbols ++ e.symbols)) (Graph.readEdge c t e)
      (readEdge c (numbering g.ids) r e) := by
  unfold Checked.readEdge Graph.readEdge
  rw [find?_numbering_ids (g.source_mem e he), find?_numbering_ids (g.target_mem e he)]
  simp only
  split
  · exact .error _
  · exact Follows.foldlM (R := Reads g (begun ++ [e]))
      (fun a _ symbols t r h => h.readSymbol he a) symbols (h.begin e)

/-! ### The initial state -/

theorem map_nameOf_positions (p : Node → Bool) :
    (positions g.nodes p).map (nameOf (numbering g.ids)) = (g.nodes.filter p).map Node.id := by
  have hnames : ∀ n ∈ g.nodes.zipIdx.filter fun n => p n.1,
      nameOf (numbering g.ids) n.2 = n.1.id := by
    intro n hn
    have hnode := List.mem_zipIdx_iff_getElem?.mp (List.mem_filter.mp hn).1
    apply nameOf_ids
    rw [Graph.getElem?_ids, hnode, Option.map_some]
  have hnodes := List.filter_map (f := Prod.fst) (p := p) (l := g.nodes.zipIdx)
  rw [List.zipIdx_map_fst] at hnodes
  rw [positions, List.map_map, hnodes, List.map_map]
  exact List.map_congr_left hnames

theorem initial_follows (g : Graph) (c : Conventions) :
    Follows .rejected (fun id q => id ∈ g.ids ∧ q = g.indexOf id) (g.initial c)
      (initial c (numbering g.ids) g.nodes) := by
  unfold Checked.initial Graph.initial
  rw [← map_nameOf_positions]
  have hmem : ∀ q ∈ positions g.nodes c.isInitial, ∃ id, g.ids[q]? = some id := by
    intro q hq
    obtain ⟨n, hn, -⟩ := mem_positions.mp hq
    exact ⟨n.id, by rw [Graph.getElem?_ids, hn, Option.map_some]⟩
  cases hpositions : positions g.nodes c.isInitial with
  | nil => exact .error _
  | cons q rest =>
    obtain ⟨id, hid⟩ := hmem q (by simp [hpositions])
    cases rest with
    | nil =>
      rw [List.map_cons, nameOf_ids hid]
      have hin := List.mem_of_getElem? hid
      exact .ok ⟨hin, ((Graph.indexOf_eq_iff hin).mpr hid).symm⟩
    | cons q' rest => exact .error _

/-! ### Completeness -/

theorem Reads.row_contains (h : Reads g begun symbols t r) {row : KeyedList Nat Nat} {id : String}
    (hrow : row.entries = numberedMoves g.ids r.alphabet t id) {i : Nat} {a : String}
    (ha : r.alphabet[i]? = some a) : row.contains i = t.contains (id, a) := by
  obtain ⟨hi, rfl⟩ := List.getElem?_eq_some_iff.mp ha
  have hposition : r.alphabet.idxOf r.alphabet[i] = i :=
    (h.alphabet ▸ nodup_eraseDups symbols : r.alphabet.Nodup).idxOf_getElem i hi
  have hfind := h.tabulates.find?_row hrow r.alphabet[i]
  rw [hposition] at hfind
  rw [KeyedList.contains, KeyedList.contains, hfind, Option.isSome_map]

theorem Reads.checkComplete (h : Reads g begun symbols t r) {id : String} (hid : id ∈ g.ids) :
    checkComplete (numbering g.ids) r (g.indexOf id) =
      report ((r.alphabet.find? fun a => !t.contains (id, a)).map fun a =>
        .rejected (.incomplete id a)) := by
  obtain ⟨row, hi, hrow⟩ := h.tabulates.exists_row (Graph.getElem?_indexOf hid)
  rw [find?_eq_bind_range (q := fun i => !row.contains i)
    fun i a ha => congrArg _ (h.row_contains hrow ha)]
  unfold Checked.checkComplete
  rw [entry_eq_ok hi, nameOf_indexOf hid]
  simp only [bind, Except.bind]
  cases hmissing : (List.range r.alphabet.length).find? fun i => !row.contains i with
  | none => rfl
  | some i =>
    have hlt : i < r.alphabet.length := List.mem_range.mp (List.mem_of_find?_eq_some hmissing)
    have hsymbol := List.getElem?_eq_getElem hlt
    simp [entry_eq_ok hsymbol, hsymbol, report, throw, throwThe, MonadExceptOf.throw]

theorem Reads.toList_touched (h : Reads g g.edges symbols t r) :
    r.touched.toList = (g.ids.filter g.isTouched).map g.indexOf := by
  have hsorted : ((g.ids.filter g.isTouched).map g.indexOf).Pairwise (compare · · = .lt) := by
    rw [List.pairwise_map]
    exact (g.pairwise_indexOf.filter _).imp Nat.compare_eq_lt.mpr
  have hset : r.touched = ⟨_, hsorted⟩ := by
    apply SortedSet.eq_of_mem_iff
    intro q
    rw [h.mem_touched, SortedSet.mem_def]
    simp only [List.mem_map, List.mem_filter, Graph.isTouched_iff]
    constructor
    · rintro ⟨e, he, rfl | rfl⟩
      · exact ⟨e.source, ⟨g.source_mem e he, e, he, Or.inl rfl⟩, rfl⟩
      · exact ⟨e.target, ⟨g.target_mem e he, e, he, Or.inr rfl⟩, rfl⟩
    · rintro ⟨_, ⟨-, e, he, rfl | rfl⟩, rfl⟩
      · exact ⟨e, he, Or.inl rfl⟩
      · exact ⟨e, he, Or.inr rfl⟩
  rw [hset]

theorem Reads.forM_checkComplete (h : Reads g g.edges (g.edges.flatMap Edge.symbols) t r) :
    r.touched.toList.forM (Checked.checkComplete (numbering g.ids) r) =
      report ((g.firstGap? t).map fun gap => .rejected (.incomplete gap.1 gap.2)) := by
  have hcheck : ∀ id ∈ g.ids.filter g.isTouched,
      Checked.checkComplete (numbering g.ids) r (g.indexOf id) =
        report ((r.alphabet.find? fun a => !t.contains (id, a)).map fun a =>
          .rejected (.incomplete id a)) :=
    fun id hid => h.checkComplete (List.mem_filter.mp hid).1
  have hloop := forM_eq_report hcheck
  have halphabet : r.alphabet = g.alphabet := h.alphabet
  rw [h.toList_touched, List.forM_eq_forM, List.forM_map, ← List.forM_eq_forM, hloop,
    Graph.firstGap?, List.map_findSome?, halphabet]
  congr 2
  funext id
  rw [Function.comp_apply, Option.map_map]
  rfl

/-! ### Automata -/

theorem Reads.assemble (h : Reads g g.edges (g.edges.flatMap Edge.symbols) t r) {id : String}
    (hid : id ∈ g.ids) :
    Parts.assemble {
      states := numbering g.ids
      alphabet := r.alphabet
      rows := r.rows
      accepting := .ofList (positions g.nodes c.isAccepting)
      initial := g.indexOf id } = .ok {
        states := g.nodes.map (g.toState c t)
        alphabet := g.alphabet
        initial := g.indexOf id } := by
  have halphabet : r.alphabet = g.alphabet := h.alphabet
  have hlength := length_entries_numbering g.table.keys_nodup
  have hinitial : g.indexOf id < g.ids.length := List.idxOf_lt_length_of_mem hid
  rw [Tabulates.assemble h.tabulates hlength hinitial, halphabet]
  congr 2
  apply List.ext_getElem?
  intro q
  rw [List.getElem?_mapIdx, List.getElem?_map, List.getElem?_map, Graph.getElem?_ids]
  cases hn : g.nodes[q]? with
  | none => rfl
  | some n =>
    have hname : nameOf (numbering g.ids) q = n.id :=
      nameOf_ids (by rw [Graph.getElem?_ids, hn, Option.map_some])
    have haccepting : q ∈ SortedSet.ofList (positions g.nodes c.isAccepting) ↔
        c.isAccepting n = true := by
      simp [mem_positions, hn]
    simp [Parts.state, Graph.toState, hname, haccepting, Graph.indexOf]

/-- Reading with every access checked gives the same automaton, or the same error. -/
theorem read_eq (g : Graph) (c : Conventions) :
    read c g.nodes g.edges = (g.toDfa c).mapError .rejected := by
  have hlength : (numbering g.ids).entries.length = g.ids.length :=
    length_entries_numbering g.table.keys_nodup
  apply Follows.eq_mapError
  unfold read readParts Graph.toDfa
  rw [g.map_id_nodes]
  simp only [hlength, bind_assoc, pure_bind]
  have hedges : Follows Stop.rejected (Reads g g.edges (g.edges.flatMap Edge.symbols))
      (g.moveTable c) (g.edges.foldlM (readEdge c (numbering g.ids))
        ⟨[], List.replicate g.ids.length .empty, .empty⟩) :=
    Follows.foldlM (R := fun done => Reads g done (done.flatMap Edge.symbols))
      (fun e he done t r h => by simpa using h.readEdge he) [] (reads_empty g)
  apply hedges.bind
  intro t r h
  apply (initial_follows g c).bind
  rintro id _ ⟨hid, rfl⟩
  rw [h.forM_checkComplete]
  cases g.firstGap? t with
  | none => exact h.assemble hid ▸ .ok rfl
  | some gap => exact .error _

-- Lists that belong to no graph can lead to faults: an end that is no node, and a name that is
-- listed twice and so has a number beyond the rows.
example : read {} [] [⟨"A", "B", .empty⟩] = .error (.broken .unknownEnd) := by decide +kernel

example : read {} [⟨"A", .empty⟩, ⟨"A", .empty⟩] [⟨"A", "A", .ofList [("label", "0")]⟩] =
    .error (.broken .outOfRange) := by decide +kernel

end Checked

end DrawnModels
