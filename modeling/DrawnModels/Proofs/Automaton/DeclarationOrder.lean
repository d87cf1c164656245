import DrawnModels.Analysis
import DrawnModels.Proofs.Automaton.Renumbering
import DrawnModels.Proofs.Graph.Drafts

/-!
# Minimization and the order of declaration

The order in which nodes and edges are declared decides how states, symbols and classes are
numbered, and which fault of a graph is reported. It decides nothing else: what the validator asks
for and what minimization merges can be said without numbers.
-/

namespace DrawnModels

/-! ### Nodes that read alike -/

namespace Attributes.ReadsLike

theorem isInitial_eq {v w : Node} (h : v.attributes.ReadsLike w.attributes) (c : Conventions) :
    c.isInitial v = c.isInitial w := by
  rw [Conventions.isInitial, Conventions.isInitial, style, style, h.getD_eq]

theorem isAccepting_eq {v w : Node} (h : v.attributes.ReadsLike w.attributes) (c : Conventions) :
    c.isAccepting v = c.isAccepting w := by
  rw [Conventions.isAccepting, Conventions.isAccepting, shape, shape, h.getD_eq]

end Attributes.ReadsLike

/-! ### Automata of rearranged graphs -/

theorem Dfa.IsDrawnBy.name?_eq {d : Dfa} {g : Graph} {c : Conventions} (h : d.IsDrawnBy g c)
    (q : Nat) : d.name? q = g.ids[q]? := by
  rw [← Dfa.getElem?_names, h.names]

namespace Graph.Rearranges

variable {g h : Graph} {c : Conventions} {a b : Dfa} {q r : Nat}

theorem drawsDfa (hgh : g.Rearranges h) (hg : g.DrawsDfa c) : h.DrawsDfa c where
  noEpsilon e he := hg.noEpsilon e ((hgh.mem_edges e).mpr he)
  deterministic e he f hf :=
    hg.deterministic e ((hgh.mem_edges e).mpr he) f ((hgh.mem_edges f).mpr hf)
  initial := by
    obtain ⟨v, ⟨hv, hinitial⟩, huniq⟩ := hg.initial
    obtain ⟨w, hw, hid, hreads⟩ := hgh.sameNodes.exists_node hv
    refine ⟨w, ⟨hw, hreads.isInitial_eq c ▸ hinitial⟩, fun w' ⟨hw', hinitial'⟩ => ?_⟩
    obtain ⟨v', hv', hid', hreads'⟩ := hgh.sameNodes.symm.exists_node hw'
    obtain rfl := huniq v' ⟨hv', hreads'.isInitial_eq c ▸ hinitial'⟩
    exact eq_of_id hw' hw (hid'.trans hid)
  complete e he id hid f hf symbol hsymbol := by
    obtain ⟨e', he', hsource, hsymbol'⟩ := hg.complete e ((hgh.mem_edges e).mpr he) id hid f
      ((hgh.mem_edges f).mpr hf) symbol hsymbol
    exact ⟨e', (hgh.mem_edges e').mp he', hsource, hsymbol'⟩

theorem exists_getElem?_ids (hgh : g.Rearranges h) {id : String} (hq : g.ids[q]? = some id) :
    ∃ r : Nat, h.ids[r]? = some id :=
  List.mem_iff_getElem?.mp ((hgh.mem_ids id).mp (List.mem_of_getElem? hq))

theorem exists_nodes_of_sameName (hgh : g.Rearranges h) (ha : a.IsDrawnBy g c)
    (hb : b.IsDrawnBy h c) (hqr : Dfa.SameName a b q r) :
    ∃ v w, g.nodes[q]? = some v ∧ h.nodes[r]? = some w ∧
      v.attributes.ReadsLike w.attributes := by
  obtain ⟨id, hq, hr⟩ := hqr
  rw [ha.name?_eq, getElem?_ids] at hq
  rw [hb.name?_eq, getElem?_ids] at hr
  obtain ⟨v, hv, rfl⟩ := Option.map_eq_some_iff.mp hq
  obtain ⟨w, hw, hid⟩ := Option.map_eq_some_iff.mp hr
  exact ⟨v, w, hv, hw,
    hgh.readsLike v (List.mem_of_getElem? hv) w (List.mem_of_getElem? hw) hid.symm⟩

theorem followedBy (hgh : g.Rearranges h) (ha : a.IsDrawnBy g c) (hb : b.IsDrawnBy h c) :
    a.FollowedBy b where
  exists_name? q name hname := by
    simp only [ha.name?_eq, hb.name?_eq] at hname ⊢
    exact hgh.exists_getElem?_ids hname
  mem_alphabet symbol hsymbol := by
    obtain ⟨e, he, hmem⟩ := (ha.mem_alphabet symbol).mp hsymbol
    exact (hb.mem_alphabet symbol).mpr ⟨e, (hgh.mem_edges e).mp he, hmem⟩
  initial := by
    obtain ⟨v, hv, hinitial⟩ := (ha.initial a.initial).mp rfl
    have hid : g.ids[a.initial]? = some v.id := by rw [getElem?_ids, hv, Option.map_some]
    obtain ⟨r, hr⟩ := hgh.exists_getElem?_ids hid
    have hqr : Dfa.SameName a b a.initial r :=
      ⟨v.id, (ha.name?_eq _).trans hid, (hb.name?_eq r).trans hr⟩
    obtain ⟨v', w, hv', hw, hreads⟩ := hgh.exists_nodes_of_sameName ha hb hqr
    cases hv.symm.trans hv'
    rwa [← (hb.initial r).mpr ⟨w, hw, hreads.isInitial_eq c ▸ hinitial⟩]
  isAccepting q r hqr haccepting := by
    obtain ⟨v, hv, haccepting⟩ := (ha.isAccepting q).mp haccepting
    obtain ⟨v', w, hv', hw, hreads⟩ := hgh.exists_nodes_of_sameName ha hb hqr
    cases hv.symm.trans hv'
    exact (hb.isAccepting r).mpr ⟨w, hw, hreads.isAccepting_eq c ▸ haccepting⟩
  successor? q r hqr symbol q' hq' := by
    obtain ⟨e, he, hsource, hsymbol, htarget⟩ := (ha.successor? q symbol q').mp hq'
    obtain ⟨r', hr'⟩ := hgh.exists_getElem?_ids htarget
    obtain ⟨id, hq, hr⟩ := hqr
    rw [ha.name?_eq, hsource] at hq
    rw [hb.name?_eq, ← hq] at hr
    refine ⟨r', (hb.successor? r symbol r').mpr ⟨e, (hgh.mem_edges e).mp he, hr, hsymbol, hr'⟩, ?_⟩
    exact ⟨e.target, (ha.name?_eq q').trans htarget, (hb.name?_eq r').trans hr'⟩

end Graph.Rearranges

namespace Graph

variable {g h : Graph} {c : Conventions} {m n : Minimized}

theorem minimize_eq_ok_iff :
    g.minimize c = .ok m ↔ ∃ d, g.toDfa c = .ok d ∧ d.minimize = .ok m := by
  unfold minimize
  cases g.toDfa c with
  | error e => simp [Except.mapError, bind, Except.bind]
  | ok d => cases hm : d.minimize <;> simp [hm, Except.mapError, bind, Except.bind]

theorem exists_minimize_iff : (∃ m, g.minimize c = .ok m) ↔ g.DrawsDfa c := by
  simp only [minimize_eq_ok_iff, ← exists_toDfa_iff]
  constructor
  · rintro ⟨m, d, hd, -⟩
    exact ⟨d, hd⟩
  · rintro ⟨d, hd⟩
    obtain ⟨m, -, hm, -⟩ := Dfa.exists_isMinimizationOf (isWellFormed_of_toDfa hd)
    exact ⟨m, d, hd, hm⟩

theorem exists_isMinimizationOf_of_minimize (hm : g.minimize c = .ok m) :
    ∃ d block, g.toDfa c = .ok d ∧ m.IsMinimizationOf d block := by
  obtain ⟨d, hd, hm⟩ := minimize_eq_ok_iff.mp hm
  obtain ⟨m', block, hm', hmin⟩ := Dfa.exists_isMinimizationOf (isWellFormed_of_toDfa hd)
  cases hm.symm.trans hm'
  exact ⟨d, block, hd, hmin⟩

theorem Rearranges.minimize (hgh : g.Rearranges h) (hm : g.minimize c = .ok m)
    (hn : h.minimize c = .ok n) :
    m.classes.Perm n.classes ∧ ∀ word, m.automaton.accepts word = n.automaton.accepts word := by
  obtain ⟨a, blockA, ha, hma⟩ := exists_isMinimizationOf_of_minimize hm
  obtain ⟨b, blockB, hb, hnb⟩ := exists_isMinimizationOf_of_minimize hn
  have hwa : a.IsWellFormed := isWellFormed_of_toDfa ha
  have hwb : b.IsWellFormed := isWellFormed_of_toDfa hb
  have hab : a.Renumbers b :=
    ⟨hgh.followedBy (isDrawnBy_of_toDfa ha) (isDrawnBy_of_toDfa hb),
      hgh.symm.followedBy (isDrawnBy_of_toDfa hb) (isDrawnBy_of_toDfa ha)⟩
  refine ⟨hab.perm_classes hwa.nodup_names hwb.nodup_names hma hnb, fun word => ?_⟩
  calc m.automaton.accepts word
      = a.accepts word := hma.accepts hwa word
    _ = b.accepts word := hab.accepts_eq word
    _ = n.automaton.accepts word := (hnb.accepts hwb word).symm

end Graph

namespace Draft

variable {d e : Draft} {g h : Graph}

/-- Whatever order the nodes and edges are declared in, minimization goes through or fails, and if
it goes through, it merges the same states and accepts the same words. -/
theorem minimize_perm (hnodes : d.nodes.Perm e.nodes) (hedges : d.edges.Perm e.edges)
    (hg : d.build = .ok g) (hh : e.build = .ok h) (c : Conventions) :
    ((∃ m, g.minimize c = .ok m) ↔ ∃ n, h.minimize c = .ok n) ∧
      ∀ m n, g.minimize c = .ok m → h.minimize c = .ok n → m.classes.Perm n.classes ∧
        ∀ word, m.automaton.accepts word = n.automaton.accepts word := by
  have hgh : g.Rearranges h := (describes_of_build hg).rearranges (describes_of_build hh)
    (fun _ => hnodes.mem_iff) (fun _ => hedges.mem_iff)
  refine ⟨?_, fun m n hm hn => hgh.minimize hm hn⟩
  rw [Graph.exists_minimize_iff, Graph.exists_minimize_iff]
  exact ⟨hgh.drawsDfa, hgh.symm.drawsDfa⟩

def records (g : Graph) : Draft :=
  ⟨g.nodes, g.edges⟩

def reversed (d : Draft) : Draft :=
  ⟨d.nodes.reverse, d.edges.reverse⟩

theorem minimize_reversed_twoSinks :
    ∃ h m n, (records .twoSinks).build = .ok .twoSinks ∧
      (records .twoSinks).reversed.build = .ok h ∧ Graph.twoSinks.minimize {} = .ok m ∧
      h.minimize {} = .ok n ∧ m.classes.Perm n.classes ∧
      ∀ word, m.automaton.accepts word = n.automaton.accepts word := by
  have hg : (records .twoSinks).build = .ok .twoSinks := by decide +kernel
  obtain ⟨h, hh⟩ := exists_eq_ok_of_isOk
    (by decide +kernel : (records .twoSinks).reversed.build.isOk = true)
  have hdraws : Graph.twoSinks.DrawsDfa {} := Graph.exists_toDfa_iff.mp
    (exists_eq_ok_of_isOk (by decide +kernel : (Graph.twoSinks.toDfa {}).isOk = true))
  obtain ⟨hiff, hsame⟩ :=
    minimize_perm (List.reverse_perm _).symm (List.reverse_perm _).symm hg hh {}
  obtain ⟨m, hm⟩ := Graph.exists_minimize_iff.mpr hdraws
  obtain ⟨n, hn⟩ := hiff.mp ⟨m, hm⟩
  exact ⟨h, m, n, hg, hh, hm, hn, hsame m n hm hn⟩

end Draft

end DrawnModels
