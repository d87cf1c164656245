import DrawnModels.Collection.SortedSet

/-!
# Partitions

A partition is a list of classes. Its order is kept, since positions serve as names of the
classes. Nothing forces the classes to be disjoint or inhabited, so whether they really
partition a given set is a question of its own, see `coversExactly`.

Splitting a class removes it and adds both halves at the end. The halves have to be disjoint
and to make up the class.
-/

namespace DrawnModels

universe u

structure Partition (α : Type u) [Ord α] where
  classes : List (SortedSet α)
deriving DecidableEq

/-- What comes of splitting a class. -/
inductive SplitResult (α : Type u) [Ord α]
  /-- There is no such class. -/
  | absent
  /-- The halves overlap, or do not make up the class. -/
  | brokenHalves
  | done (p : Partition α)
deriving DecidableEq

namespace Partition

variable {α : Type u} [Ord α]

/-- The partition into the given classes, less the empty ones. -/
def ofClasses (classes : List (SortedSet α)) : Partition α :=
  ⟨classes.filter fun c => !c.isEmpty⟩

def size (p : Partition α) : Nat :=
  p.classes.length

variable [DecidableEq α]

/-- The position of the first class that holds `a`. -/
def classOf? (p : Partition α) (a : α) : Option Nat :=
  p.classes.findIdx? (a ∈ ·)

/-- Whether both lists hold as many classes and every class of `p` occurs in `q`. -/
def agrees (p q : Partition α) : Bool :=
  p.size == q.size && p.classes.all (q.classes.contains ·)

/-- Whether `left` and `right` are disjoint and make up `c` together. -/
def areHalves [Std.TransOrd α] [Std.LawfulEqOrd α] (c left right : SortedSet α) : Bool :=
  (left.inter right).isEmpty && left.union right = c

/-- Takes the first class equal to `c` out and adds `left` and `right` at the end. -/
def split [Std.TransOrd α] [Std.LawfulEqOrd α] (p : Partition α) (c left right : SortedSet α) :
    SplitResult α :=
  if c ∈ p.classes then
    if areHalves c left right then .done ⟨p.classes.erase c ++ [left, right]⟩
    else .brokenHalves
  else .absent

/-- Goes through the classes, carrying the set of all elements seen so far: fails at an empty class
or at an element seen before. -/
def gather [Std.TransOrd α] [Std.LawfulEqOrd α] (seen : SortedSet α) :
    List (SortedSet α) → Option (SortedSet α)
  | [] => some seen
  | c :: rest =>
    if c.isEmpty || !(seen.inter c).isEmpty then none else gather (seen.union c) rest

/-- Whether the classes are inhabited, pairwise disjoint, and hold the elements of `members` and
no others. -/
def coversExactly [Std.TransOrd α] [Std.LawfulEqOrd α] (p : Partition α) (members : List α) : Bool :=
  gather .empty p.classes = some (.ofList members)

/-- How many more times classes can be cut into inhabited halves. -/
def room (p : Partition α) : Nat :=
  (p.classes.map fun c => c.size - 1).foldr (· + ·) 0

end Partition

end DrawnModels
