import DrawnModels.Automaton.Basic
import DrawnModels.Collection.Partition

/-!
# Partition refinement

The states of an automaton are grouped by the words that they accept. Refinement starts from the
accepting and the rejecting states and keeps a stack of blocks that are still to be used as
splitters. A splitter is taken from the stack and, symbol by symbol, every block is split into the
states that move into the splitter and those that do not. Of a block that is split while it waits
on the stack both halves wait, otherwise only the smaller one.

A refinement that tries to split a block which is not there, or into parts that are no halves, is
defective, and so is one that ends without covering all states.
-/

namespace DrawnModels

/-- The ways in which a minimization can contradict itself. -/
inductive Defect
  /-- A block that was to be split is no class of the partition. -/
  | missingBlock
  /-- The halves of a block overlap or do not make it up. -/
  | brokenHalves
  /-- The classes do not partition the states. -/
  | notCovering
  /-- States of one class move into different classes. -/
  | notCongruent
  /-- A state is in no class. -/
  | unclassified
deriving DecidableEq

namespace Defect

def message : Defect → String
  | missingBlock => "the block that is split must be a class"
  | brokenHalves => "halves must partition the class that is split"
  | notCovering => "classes must partition the states"
  | notCongruent => "partition is not a congruence"
  | unclassified => "every state must belong to a class"

end Defect

abbrev Block := SortedSet Nat

structure Refinement where
  partition : Partition Nat
  /-- The blocks that wait to be splitters, the next one in front. -/
  waiting : List Block
deriving DecidableEq

namespace Refinement

/-- The accepting and the rejecting states, all of them waiting. -/
def start (d : Dfa) : Refinement :=
  let p := Partition.ofClasses
    [(SortedSet.range d.size).filter d.isAccepting,
      (SortedSet.range d.size).filter fun q => !d.isAccepting q]
  ⟨p, p.classes.reverse⟩

/-- The states that move into a block on a symbol. -/
def predecessors (d : Dfa) (symbol : String) (splitter : Block) : Block :=
  (SortedSet.range d.size).filter fun q => (d.successor? q symbol).any (· ∈ splitter)

/-- The stack after `b` was split into `inside` and `outside`. -/
def requeue (waiting : List Block) (b inside outside : Block) : List Block :=
  if b ∈ waiting then outside :: inside :: waiting.filter (· ≠ b)
  else if inside.size ≤ outside.size then inside :: waiting
  else outside :: waiting

/-- Splits a block into its states that lie in `x` and the others, if there are states of both
kinds. -/
def splitBlock (x : Block) (r : Refinement) (b : Block) : Except Defect Refinement :=
  let inside := b.inter x
  let outside := b.diff x
  if inside.isEmpty || outside.isEmpty then .ok r
  else
    match r.partition.split b inside outside with
    | .absent => .error .missingBlock
    | .brokenHalves => .error .brokenHalves
    | .done p => .ok ⟨p, requeue r.waiting b inside outside⟩

/-- Splits the blocks that are there by the states that move into `splitter` on one symbol. -/
def refineBy (d : Dfa) (splitter : Block) (r : Refinement) (symbol : String) :
    Except Defect Refinement :=
  r.partition.classes.foldlM (splitBlock (predecessors d symbol splitter)) r

/-- Uses one splitter, on every symbol in turn. -/
def refineWith (d : Dfa) (splitter : Block) (r : Refinement) : Except Defect Refinement :=
  d.alphabet.foldlM (refineBy d splitter) r

def step? (d : Dfa) (r : Refinement) : Option (Except Defect Refinement) :=
  match r.waiting with
  | [] => none
  | splitter :: rest => some (refineWith d splitter { r with waiting := rest })

/-! ### Progress -/

/-- What a step leaves: the refinement as it was, or one with less room for splits. -/
def Progress (r s : Refinement) : Prop :=
  s = r ∨ s.partition.room < r.partition.room

theorem Progress.trans {r s t : Refinement} (h : Progress r s) (h' : Progress s t) :
    Progress r t := by
  rcases h with rfl | h
  · exact h'
  · rcases h' with rfl | h'
    · exact Or.inr h
    · exact Or.inr (Nat.lt_trans h' h)

theorem progress_foldlM {α : Type} {f : Refinement → α → Except Defect Refinement}
    (hf : ∀ r a s, f r a = .ok s → Progress r s) {l : List α} {r s : Refinement}
    (h : l.foldlM f r = .ok s) : Progress r s := by
  induction l generalizing r with
  | nil => cases h; exact Or.inl rfl
  | cons a l ih =>
    rw [List.foldlM_cons] at h
    cases ha : f r a with
    | error e => rw [ha] at h; cases h
    | ok t => rw [ha] at h; exact (hf r a t ha).trans (ih h)

theorem room_lt_of_split {p q : Partition Nat} {b left right : Block}
    (h : p.split b left right = .done q) (hl : left.isEmpty = false) (hr : right.isEmpty = false)
    (hs : left.size + right.size = b.size) : q.room < p.room := by
  unfold Partition.split at h
  split at h
  · rename_i hb
    split at h
    · cases h
      have hp := ((List.perm_cons_erase hb).map fun c => c.size - 1).sum_nat
      simp only [List.map_cons, List.sum_cons] at hp
      have hroom (r : Partition Nat) : r.room = (r.classes.map fun c => c.size - 1).sum := rfl
      simp only [hroom, List.map_append, List.sum_append_nat, List.map_cons,
        List.map_nil, List.sum_cons, List.sum_nil]
      have h1 : 0 < left.size := List.length_pos_iff.mpr (by simpa [SortedSet.isEmpty] using hl)
      have h2 : 0 < right.size := List.length_pos_iff.mpr (by simpa [SortedSet.isEmpty] using hr)
      omega
    · cases h
  · cases h

theorem progress_splitBlock {x b : Block} {r s : Refinement} (h : splitBlock x r b = .ok s) :
    Progress r s := by
  unfold splitBlock at h
  simp only at h
  split at h
  · cases h; exact Or.inl rfl
  · rename_i he
    simp only [Bool.or_eq_true, not_or, Bool.not_eq_true] at he
    split at h
    · cases h
    · cases h
    · rename_i hd
      cases h
      exact Or.inr (room_lt_of_split hd he.1 he.2 (SortedSet.size_inter_add_size_diff b x))

theorem progress_refineWith {d : Dfa} {splitter : Block} {r s : Refinement}
    (h : refineWith d splitter r = .ok s) : Progress r s :=
  progress_foldlM (fun _ _ _ h => progress_foldlM (fun _ _ _ h => progress_splitBlock h) h) h

theorem lex_lt_of_step? {d : Dfa} {r s : Refinement} (h : step? d r = some (.ok s)) :
    Prod.Lex (· < ·) (· < ·) (s.partition.room, s.waiting.length)
      (r.partition.room, r.waiting.length) := by
  unfold step? at h
  split at h
  · cases h
  · rename_i splitter rest hw
    rcases progress_refineWith (Option.some.inj h) with rfl | h
    · exact Prod.Lex.right _ (by simp [hw])
    · exact Prod.Lex.left _ _ h

def run (d : Dfa) (r : Refinement) : Except Defect (Partition Nat) :=
  match _h : step? d r with
  | none => .ok r.partition
  | some (.error e) => .error e
  | some (.ok s) => run d s
termination_by (r.partition.room, r.waiting.length)
decreasing_by exact lex_lt_of_step? _h

end Refinement

namespace Dfa

/-- The classes of states that accept the same words, in the order in which refinement leaves
them. -/
def languagePartition (d : Dfa) : Except Defect (Partition Nat) := do
  let p ← Refinement.run d (.start d)
  if p.coversExactly (List.range d.size) then .ok p else .error .notCovering

end Dfa

end DrawnModels
