/-!
# Sorted sets

A finite set is kept as the strictly increasing list of its members. Two sets are equal
exactly when they have the same members, and every listing of a set is in order.
Sets are ordered themselves, by their listings compared from the front.
-/

namespace DrawnModels

universe u

structure SortedSet (α : Type u) [Ord α] where
  toList : List α
  sorted : toList.Pairwise (compare · · = .lt)
deriving DecidableEq

namespace SortedSet

variable {α : Type u} [Ord α]

instance : Membership α (SortedSet α) where
  mem s a := a ∈ s.toList

instance [DecidableEq α] (a : α) (s : SortedSet α) : Decidable (a ∈ s) :=
  inferInstanceAs (Decidable (a ∈ s.toList))

theorem mem_def {a : α} {s : SortedSet α} : a ∈ s ↔ a ∈ s.toList := Iff.rfl

def empty : SortedSet α :=
  ⟨[], List.Pairwise.nil⟩

instance : Ord (SortedSet α) where
  compare s t := compare s.toList t.toList

instance [Std.TransOrd α] : Std.TransOrd (SortedSet α) where
  eq_swap {s t} := @Std.OrientedCmp.eq_swap _ compare _ s.toList t.toList
  isLE_trans {s t u} := @Std.TransCmp.isLE_trans _ compare _ s.toList t.toList u.toList

instance [Std.LawfulEqOrd α] : Std.LawfulEqOrd (SortedSet α) where
  compare_self {s} := @Std.ReflCmp.compare_self _ compare _ s.toList
  eq_of_compare {s t} h := by
    have : s.toList = t.toList := Std.LawfulEqCmp.eq_of_compare h
    cases s; cases t; cases this; rfl

def isEmpty (s : SortedSet α) : Bool :=
  s.toList.isEmpty

def size (s : SortedSet α) : Nat :=
  s.toList.length

@[simp] theorem not_mem_empty {a : α} : ¬ a ∈ (empty : SortedSet α) :=
  List.not_mem_nil

def filter (p : α → Bool) (s : SortedSet α) : SortedSet α :=
  ⟨s.toList.filter p, s.sorted.filter p⟩

@[simp] theorem mem_filter {p : α → Bool} {s : SortedSet α} {a : α} :
    a ∈ s.filter p ↔ a ∈ s ∧ p a = true := by
  simp [mem_def, filter]

def inter [DecidableEq α] (s t : SortedSet α) : SortedSet α :=
  s.filter (· ∈ t)

def diff [DecidableEq α] (s t : SortedSet α) : SortedSet α :=
  s.filter (fun a => !decide (a ∈ t))

/-- The two parts into which another set cuts `s` have together the size of `s`. -/
theorem size_inter_add_size_diff [DecidableEq α] (s t : SortedSet α) :
    (s.inter t).size + (s.diff t).size = s.size := by
  simp only [inter, diff, filter, size]
  induction s.toList with
  | nil => rfl
  | cons a rest ih => by_cases h : a ∈ t <;> simp [h] <;> omega

/-- The position of `a` in an increasing list, found by halving the part of the list that can
still hold it. -/
def bisect (a : α) : List α → Option Nat
  | [] => none
  | b :: rest =>
    let middle := rest.length / 2
    have h : middle < (b :: rest).length := by simp only [List.length_cons, middle]; omega
    match compare a (b :: rest)[middle] with
    | .eq => some middle
    | .lt => bisect a ((b :: rest).take middle)
    | .gt => (bisect a ((b :: rest).drop (middle + 1))).map (· + (middle + 1))
termination_by l => l.length
decreasing_by all_goals simp only [List.length_take, List.length_drop, List.length_cons] at *; omega

/-- The position of a member, counted from the least. -/
def index? (s : SortedSet α) (a : α) : Option Nat :=
  bisect a s.toList

/-- Puts `a` at its place in an increasing list, unless it is there already. -/
def place (a : α) : List α → List α
  | [] => [a]
  | b :: rest =>
    match compare a b with
    | .lt => a :: b :: rest
    | .eq => b :: rest
    | .gt => b :: place a rest

variable [Std.LawfulEqOrd α]

theorem mem_place {a c : α} {l : List α} : c ∈ place a l ↔ c = a ∨ c ∈ l := by
  induction l with
  | nil => simp [place]
  | cons b rest ih =>
    rw [place]
    split
    · simp
    · rename_i h
      rw [Std.compare_eq_iff_eq.mp h, List.mem_cons]
      simp
    · rw [List.mem_cons, List.mem_cons, ih]
      exact or_left_comm

variable [Std.TransOrd α]

theorem sorted_place {a : α} {l : List α} (h : l.Pairwise (compare · · = .lt)) :
    (place a l).Pairwise (compare · · = .lt) := by
  induction l with
  | nil => simp [place]
  | cons b rest ih =>
    obtain ⟨hb, hr⟩ := List.pairwise_cons.mp h
    rw [place]
    split
    · rename_i hab
      refine List.pairwise_cons.mpr ⟨fun c hc => ?_, h⟩
      rcases List.mem_cons.mp hc with rfl | hc
      · exact hab
      · exact Std.TransCmp.lt_trans hab (hb c hc)
    · exact h
    · rename_i hab
      refine List.pairwise_cons.mpr ⟨fun c hc => ?_, ih hr⟩
      rcases mem_place.mp hc with rfl | hc
      · exact Std.OrientedCmp.lt_of_gt hab
      · exact hb c hc

def insert (s : SortedSet α) (a : α) : SortedSet α :=
  ⟨place a s.toList, sorted_place s.sorted⟩

@[simp] theorem mem_insert {s : SortedSet α} {a c : α} : c ∈ s.insert a ↔ c = a ∨ c ∈ s :=
  mem_place

def union (s t : SortedSet α) : SortedSet α :=
  t.toList.foldl insert s

def ofList (l : List α) : SortedSet α :=
  l.foldl insert empty

theorem mem_foldl_insert {l : List α} {s : SortedSet α} {c : α} :
    c ∈ l.foldl insert s ↔ c ∈ s ∨ c ∈ l := by
  induction l generalizing s with
  | nil => simp
  | cons a rest ih => simp only [List.foldl_cons, ih, mem_insert, List.mem_cons, or_assoc, or_left_comm]

@[simp] theorem mem_union {s t : SortedSet α} {c : α} : c ∈ s.union t ↔ c ∈ s ∨ c ∈ t :=
  mem_foldl_insert

@[simp] theorem mem_ofList {l : List α} {c : α} : c ∈ ofList l ↔ c ∈ l := by
  simp [ofList, mem_foldl_insert]

def range (n : Nat) : SortedSet Nat :=
  ⟨List.range n, List.pairwise_lt_range.imp Nat.compare_eq_lt.mpr⟩

@[simp] theorem mem_range {n i : Nat} : i ∈ range n ↔ i < n :=
  List.mem_range

end SortedSet

end DrawnModels
