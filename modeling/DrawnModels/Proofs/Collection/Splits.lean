import DrawnModels.Proofs.Collection.Classes

/-!
# Splitting again and again

The halves of a class have to be disjoint and to make up the class, but either of them may be empty.
So whatever is split, the classes stay disjoint and keep their members, and every member is found in
one class only. They stay inhabited if and only if no class is split into itself and nothing.
-/

namespace DrawnModels

universe u

variable {α : Type u} [Ord α]

/-- A class that is to be split, and its halves. -/
structure SplitCall (α : Type u) [Ord α] where
  whole : SortedSet α
  left : SortedSet α
  right : SortedSet α
deriving DecidableEq

def SplitCall.IsProper (s : SplitCall α) : Prop :=
  (∃ a, a ∈ s.left) ∧ ∃ a, a ∈ s.right

namespace Partition

variable [DecidableEq α] [Std.TransOrd α] [Std.LawfulEqOrd α]

/-- Whether there was such a class, and the partition afterwards. There is no answer if the halves
are broken. -/
def answer? (p : Partition α) (s : SplitCall α) : Option (Bool × Partition α) :=
  match p.split s.whole s.left s.right with
  | .absent => some (false, p)
  | .brokenHalves => none
  | .done q => some (true, q)

/-- One partition becomes another by calls that are answered as the log says. -/
inductive Splits : Partition α → List (SplitCall α × Bool) → Partition α → Prop
  | nil (p : Partition α) : Splits p [] p
  | cons {p q r : Partition α} {s : SplitCall α} {answer : Bool} {log : List (SplitCall α × Bool)}
      (hanswer : p.answer? s = some (answer, q)) (hrest : Splits q log r) :
      Splits p ((s, answer) :: log) r

variable {p q : Partition α} {s : SplitCall α} {members : List α}
  {log : List (SplitCall α × Bool)}

/-! ### One call -/

theorem answer?_cases {answer : Bool} (h : p.answer? s = some (answer, q)) :
    (answer = false ∧ q = p) ∨ (answer = true ∧ p.split s.whole s.left s.right = .done q) := by
  unfold answer? at h
  split at h
  · cases h
    exact Or.inl ⟨rfl, rfl⟩
  · cases h
  · rename_i hdone
    cases h
    exact Or.inr ⟨rfl, hdone⟩

theorem eq_of_refused (h : p.answer? s = some (false, q)) : q = p := by
  rcases answer?_cases h with ⟨-, hq⟩ | ⟨hanswer, -⟩
  · exact hq
  · cases hanswer

theorem Separates.answer? {answer : Bool} (hp : p.Separates members)
    (h : p.answer? s = some (answer, q)) : q.Separates members := by
  rcases answer?_cases h with ⟨-, rfl⟩ | ⟨-, hdone⟩
  · exact hp
  · exact hp.split hdone

theorem inhabited_answer?_iff {answer : Bool} (h : p.answer? s = some (answer, q)) :
    (∀ c ∈ q.classes, ∃ a, a ∈ c) ↔
      (∀ c ∈ p.classes, ∃ a, a ∈ c) ∧ (answer = true → s.IsProper) := by
  rcases answer?_cases h with ⟨rfl, rfl⟩ | ⟨rfl, hdone⟩
  · simp
  · simp [inhabited_split_iff hdone, SplitCall.IsProper]

/-! ### All calls -/

theorem Splits.separates (h : p.Splits log q) (hp : p.Separates members) :
    q.Separates members := by
  induction h with
  | nil => exact hp
  | cons hanswer _ ih => exact ih (hp.answer? hanswer)

theorem Splits.inhabited_iff (h : p.Splits log q) :
    (∀ c ∈ q.classes, ∃ a, a ∈ c) ↔
      (∀ c ∈ p.classes, ∃ a, a ∈ c) ∧ ∀ e ∈ log, e.2 = true → e.1.IsProper := by
  induction h with
  | nil => simp
  | cons hanswer _ ih => rw [ih, inhabited_answer?_iff hanswer, List.forall_mem_cons, and_assoc]

theorem Splits.exists_between {earlier later : List (SplitCall α × Bool)} {answer : Bool}
    (h : p.Splits (earlier ++ (s, answer) :: later) q) :
    ∃ before after, p.Splits earlier before ∧ before.answer? s = some (answer, after) ∧
      after.Splits later q := by
  induction earlier generalizing p with
  | nil =>
    cases h with
    | cons hanswer hrest => exact ⟨p, _, .nil p, hanswer, hrest⟩
  | cons e earlier ih =>
    cases h with
    | cons hfirst hrest =>
      obtain ⟨before, after, hbefore, hanswer, hafter⟩ := ih hrest
      exact ⟨before, after, .cons hfirst hbefore, hanswer, hafter⟩

/-- After any calls the classes cover the same members exactly if and only if no class was split with
an empty half. In any case a refused call leaves the partition as it was, the classes are disjoint
and hold these members and no others, and every member is found in the only class that holds it. -/
theorem coversExactly_iff_of_splits (hcovers : p.coversExactly members = true)
    (hsplits : p.Splits log q) :
    (q.coversExactly members = true ↔ ∀ e ∈ log, e.2 = true → e.1.IsProper) ∧
      (∀ earlier s later, log = earlier ++ (s, false) :: later →
        ∃ r, p.Splits earlier r ∧ r.answer? s = some (false, r) ∧ r.Splits later q) ∧
      q.Separates members ∧
      ∀ a ∈ members, ∃ i c, q.classOf? a = some i ∧ q.classes[i]? = some c ∧ a ∈ c ∧
        ∀ j d, q.classes[j]? = some d → a ∈ d → j = i := by
  have hdivides : p.Divides members := coversExactly_iff.mp hcovers
  have hseparates : q.Separates members := hsplits.separates hdivides.separates
  refine ⟨?_, ?_, hseparates, ?_⟩
  · rw [coversExactly_iff, divides_iff, hsplits.inhabited_iff, and_iff_right hseparates,
      and_iff_right hdivides.inhabited]
  · rintro earlier s later rfl
    obtain ⟨r, after, hbefore, hanswer, hafter⟩ := hsplits.exists_between
    obtain rfl := eq_of_refused hanswer
    exact ⟨after, hbefore, hanswer, hafter⟩
  · intro a ha
    obtain ⟨i, hi, hunique⟩ := hseparates.exists_classOf? ha
    obtain ⟨c, hc, hac⟩ := hseparates.classOf?_eq_some_iff.mp hi
    exact ⟨i, c, hi, hc, hac, hunique⟩

def pair : Partition Nat :=
  .ofClasses [.ofList [0, 1]]

def singletons : Partition Nat :=
  .ofClasses [.ofList [0], .ofList [1]]

/-- The pair is split into its members, and is no class any more when it is to be split again. -/
theorem coversExactly_singletons :
    pair.coversExactly [0, 1] = true ∧
      pair.Splits [(⟨.ofList [0, 1], .ofList [0], .ofList [1]⟩, true),
        (⟨.ofList [0, 1], .ofList [1], .ofList [0]⟩, false)] singletons ∧
      singletons.coversExactly [0, 1] = true := by
  have hpair : pair.coversExactly [0, 1] = true := by decide
  have hsplits : pair.Splits [(⟨.ofList [0, 1], .ofList [0], .ofList [1]⟩, true),
      (⟨.ofList [0, 1], .ofList [1], .ofList [0]⟩, false)] singletons :=
    .cons (q := singletons) (by decide) (.cons (q := singletons) (by decide) (.nil singletons))
  refine ⟨hpair, hsplits, (coversExactly_iff_of_splits hpair hsplits).1.mpr ?_⟩
  simp [SplitCall.IsProper]

/-- A class may be split into nothing and itself, and then one of the classes is empty. -/
theorem not_coversExactly_emptyHalf :
    pair.coversExactly [0, 1] = true ∧
      pair.Splits [(⟨.ofList [0, 1], .empty, .ofList [0, 1]⟩, true)]
        ⟨[.empty, .ofList [0, 1]]⟩ ∧
      ¬ (⟨[.empty, .ofList [0, 1]]⟩ : Partition Nat).coversExactly [0, 1] = true :=
  ⟨by decide, .cons (q := ⟨[.empty, .ofList [0, 1]]⟩) (by decide) (.nil _), by decide⟩

end Partition

end DrawnModels
