import DrawnModels.Automaton.MoveTable
import DrawnModels.Proofs.Collection.Entries
import Mathlib.Data.List.Nodup
import Mathlib.Tactic.ByContra

/-!
# What move tables hold

Moves are triples of a source, a symbol and a target. A table into which moves were recorded holds
just these moves, each once. Recording goes through as long as the moves are deterministic, and the
first move that is not clashes with one recorded before.
-/

namespace DrawnModels

namespace MoveTable

variable {σ : Type} [DecidableEq σ] {t : MoveTable σ} {moves : List (σ × String × σ)}

/-- The table holds the given moves and no others. -/
def Holds (t : MoveTable σ) (moves : List (σ × String × σ)) : Prop :=
  ∀ source symbol target,
    t.find? (source, symbol) = some target ↔ (source, symbol, target) ∈ moves

/-- No two moves from one state on one symbol lead to different states. -/
def Deterministic (moves : List (σ × String × σ)) : Prop :=
  ∀ source symbol p q, (source, symbol, p) ∈ moves → (source, symbol, q) ∈ moves → p = q

theorem holds_empty : Holds (.empty : MoveTable σ) [] := by
  simp [Holds]

theorem Holds.deterministic (h : t.Holds moves) : Deterministic moves := by
  intro source symbol p q hp hq
  have hp := (h source symbol p).mpr hp
  rw [(h source symbol q).mpr hq] at hp
  exact (Option.some.inj hp).symm

theorem Holds.record_cases (h : t.Holds moves) (source : σ) (symbol : String) (target : σ) :
    (∃ t', t.record source symbol target = .ok t' ∧
        t'.Holds (moves ++ [(source, symbol, target)])) ∨
      ∃ first, (source, symbol, first) ∈ moves ∧ first ≠ target ∧
        t.record source symbol target = .error ⟨source, symbol, first, target⟩ := by
  unfold record
  cases hfind : t.find? (source, symbol) with
  | none =>
    refine Or.inl ⟨_, rfl, fun s a p => ?_⟩
    have hnot : ∀ q, (source, symbol, q) ∉ moves := fun q hq => by
      rw [(h source symbol q).mpr hq] at hfind
      cases hfind
    rw [KeyedList.find?_insert, List.mem_append, List.mem_singleton]
    by_cases hkey : (s, a) = (source, symbol)
    · cases hkey
      simp [hnot, eq_comm]
    · rw [if_neg hkey, h s a p]
      simp_all
  | some first =>
    have hmem : (source, symbol, first) ∈ moves := (h source symbol first).mp hfind
    by_cases hsame : first = target
    · subst hsame
      refine Or.inl ⟨t, by simp, fun s a p => ?_⟩
      rw [h s a p, List.mem_append, List.mem_singleton]
      exact ⟨Or.inl, fun hp => hp.elim id fun he => he ▸ hmem⟩
    · exact Or.inr ⟨first, hmem, hsame, by simp [hsame]⟩

/-- A list of moves is recorded, or a move of it clashes with one before it. -/
theorem Holds.foldlM_record_cases {α ε : Type} {f : MoveTable σ → α → Except ε (MoveTable σ)}
    {l : List α} (h : t.Holds moves) (move : α → σ × String × σ) (wrap : Clash σ → ε)
    (hf : ∀ t, ∀ x ∈ l, f t x = (t.record (move x).1 (move x).2.1 (move x).2.2).mapError wrap) :
    (∃ t', l.foldlM f t = .ok t' ∧ t'.Holds (moves ++ l.map move)) ∨
      ∃ before x after first, l = before ++ x :: after ∧
        ((move x).1, (move x).2.1, first) ∈ moves ++ before.map move ∧ first ≠ (move x).2.2 ∧
        l.foldlM f t = .error (wrap ⟨(move x).1, (move x).2.1, first, (move x).2.2⟩) := by
  induction l generalizing t moves with
  | nil => exact Or.inl ⟨t, rfl, by simpa using h⟩
  | cons x rest ih =>
    obtain ⟨hx, hrest⟩ := forall_and.mp fun t => List.forall_mem_cons.mp (hf t)
    rw [List.foldlM_cons, hx]
    rcases h.record_cases (move x).1 (move x).2.1 (move x).2.2 with
      ⟨t', hok, ht'⟩ | ⟨first, hfirst, hne, herr⟩
    · have hdone : ∀ l : List α,
          moves ++ (x :: l).map move = moves ++ [move x] ++ l.map move := by simp
      rw [hok]
      rcases ih ht' hrest with
        ⟨t'', hok', ht''⟩ | ⟨before, y, after, first, rfl, hfirst, hne, herr⟩
      · exact Or.inl ⟨t'', hok', hdone rest ▸ ht''⟩
      · exact Or.inr ⟨x :: before, y, after, first, rfl, hdone before ▸ hfirst, hne, herr⟩
    · exact Or.inr ⟨[], x, rest, first, rfl, by simpa using hfirst, hne, by rw [herr]; rfl⟩

/-! ### The moves from one state -/

theorem mem_movesOf {q p : σ} {a : String} : (a, p) ∈ t.movesOf q ↔ t.find? (q, a) = some p := by
  rw [KeyedList.find?_eq_some_iff, movesOf, List.mem_filterMap]
  constructor
  · rintro ⟨⟨⟨s, b⟩, r⟩, he, hsome⟩
    by_cases hs : s = q
    · simp only [hs, if_true, Option.some.injEq, Prod.mk.injEq] at hsome
      obtain ⟨rfl, rfl⟩ := hsome
      exact hs ▸ he
    · simp [hs] at hsome
  · exact fun he => ⟨_, he, by simp⟩

theorem movesOf_insert {q : σ} {a : String} (h : t.find? (q, a) = none) (p r : σ) :
    movesOf (t.insert (q, a) p) r = t.movesOf r ++ if r = q then [(a, p)] else [] := by
  rw [movesOf, movesOf, KeyedList.entries_insert h, List.filterMap_append]
  by_cases hr : r = q
  · simp [hr]
  · simp [hr, Ne.symm hr]

theorem nodup_keys_movesOf (t : MoveTable σ) (q : σ) : ((t.movesOf q).map Prod.fst).Nodup := by
  have hmap : (t.movesOf q).map Prod.fst =
      t.keys.filterMap fun k => if k.1 = q then some k.2 else none := by
    rw [movesOf, List.map_filterMap, KeyedList.keys, List.filterMap_map]
    congr 1
    funext e
    by_cases he : e.1.1 = q <;> simp [he]
  rw [hmap]
  refine List.Nodup.filterMap (fun k l a hk hl => ?_) t.keys_nodup
  obtain ⟨hkq, hka⟩ := Option.ite_none_right_eq_some.mp hk
  obtain ⟨hlq, hla⟩ := Option.ite_none_right_eq_some.mp hl
  exact Prod.ext (hkq.trans hlq.symm) (Option.some.inj (hka.trans hla.symm))

theorem find?_ofList_movesOf {τ : Type} (t : MoveTable σ) (q : σ) (f : σ → τ) (a : String) :
    (KeyedList.ofList ((t.movesOf q).map fun m => (m.1, f m.2))).find? a =
      (t.find? (q, a)).map f := by
  have hkeys : (((t.movesOf q).map fun m => (m.1, f m.2)).map Prod.fst).Nodup := by
    simpa [Function.comp_def] using nodup_keys_movesOf t q
  ext b
  rw [KeyedList.find?_eq_some_iff, KeyedList.entries_ofList hkeys, Option.map_eq_some_iff,
    List.mem_map]
  constructor
  · rintro ⟨⟨_, p⟩, hm, heq⟩
    cases heq
    exact ⟨p, mem_movesOf.mp hm, rfl⟩
  · rintro ⟨p, hp, rfl⟩
    exact ⟨(a, p), mem_movesOf.mpr hp, rfl⟩

end MoveTable

end DrawnModels
