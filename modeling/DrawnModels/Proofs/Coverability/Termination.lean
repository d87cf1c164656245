import DrawnModels.Proofs.Coverability.Growth
import Mathlib.Logic.Hydra

/-!
# The search ends

With unlimited counts there are infinitely many markings of a net, so that the search might go on
finding new ones. It does not, because branches end. A step takes the branch in front from the
stack and puts at most its extensions by one transition in its place. Extending branches is well
founded, and then so is replacing one of finitely many branches by finitely many extensions of it.
-/

namespace DrawnModels

namespace Coverability

variable {cap : Capacity} {n : Net} {root : Marking cap} {s t : Search cap n}

def Pending.branch {places : Nat} (p : Pending cap places) : List (Marking cap) × Marking cap :=
  (p.path, p.marking)

namespace Search

def branches (s : Search cap n) : Multiset (List (Marking cap) × Marking cap) :=
  ↑(s.pending.map Pending.branch)

/-- The search after a number of steps, unless the stack runs empty before. -/
def after? (s : Search cap n) : Nat → Option (Search cap n)
  | 0 => some s
  | steps + 1 => s.step?.bind fun t => t.after? steps

/-- A step replaces a branch by extensions of it. -/
theorem Traced.cutExpand_branches (hs : Traced root s) (h : s.step? = some t) :
    Relation.CutExpand (fun b a => Extends n a b) t.branches s.branches := by
  obtain ⟨p, rest, hp, -, hcases⟩ := cases_of_step? h
  have hfront : s.branches = {p.branch} + ↑(rest.map Pending.branch) := by
    rw [branches, hp, List.map_cons, ← Multiset.cons_coe, Multiset.singleton_add]
  rcases hcases with ⟨-, -, hrest⟩ | ⟨hnew, -, hrest⟩
  · refine ⟨0, p.branch, by simp, ?_⟩
    rw [hfront, branches, hrest, add_zero, add_comm]
  · refine ⟨↑((p.successors n s.tree.size).map Pending.branch), p.branch, fun b hb => ?_, ?_⟩
    · obtain ⟨q, hq, rfl⟩ := List.mem_map.mp (Multiset.mem_coe.mp hb)
      obtain ⟨tr, htr, m', hen, hfire, hqm, hqp⟩ := Pending.mem_successors hq
      -- The markings of a path are in the tree, so a new marking does not repeat one of them.
      have hnot : p.marking ∉ p.path := by
        intro hmem
        have hold := (hs.pending p (by simp [hp])).2 p.marking hmem
        rw [(hs.contains_iff _).mpr hold] at hnew
        cases hnew
      exact ⟨hnot, hqp, tr, htr, m', hen, hfire, hqm⟩
    · rw [hfront, branches, hrest, List.map_append, List.map_reverse, ← Multiset.coe_add,
        Multiset.coe_reverse, add_comm, add_assoc, add_comm (Multiset.ofList (rest.map _))]

/-- Whatever the search has found so far, its stack runs empty. -/
theorem Traced.exists_after? (hs : Traced root s) :
    ∃ steps t, s.after? steps = some t ∧ t.pending = [] ∧ Traced root t := by
  induction hb : s.branches using (Extends.wellFounded n).cutExpand.induction generalizing s with
  | _ b ih =>
    subst hb
    cases hstep : s.step? with
    | none => exact ⟨0, s, rfl, pending_eq_nil_of_step? hstep, hs⟩
    | some t =>
      obtain ⟨steps, u, hu, hend⟩ :=
        ih t.branches (hs.cutExpand_branches hstep) (hs.step hstep) rfl
      exact ⟨steps + 1, u, by simpa [after?, hstep] using hu, hend⟩

end Search

/-- With unlimited counts the stack runs empty after finitely many steps, whatever the net and the
marking that it starts from, and then the tree is complete. -/
theorem exists_after?_start (n : Net) (initial : Marking .unlimited) :
    ∃ steps s, (Search.start n initial).after? steps = some s ∧ s.pending = [] ∧
      s.tree.Complete n (initial.resized n.placeCount) := by
  obtain ⟨steps, s, hs, hnil, htraced⟩ := (Search.traced_start n initial).exists_after?
  exact ⟨steps, s, hs, hnil, htraced.complete hnil⟩

end Coverability

end DrawnModels
