import DrawnModels.Collection.SortedSet
import DrawnModels.Text.Pieces

/-!
# Showing values

How values are written in messages and listings. Collections stand in braces, a set in the order of
its members.
-/

namespace DrawnModels

universe u

class Shown (α : Type u) where
  shown : α → String

export Shown (shown)

/-- A collection in braces, in the given order. -/
def shownAll {α : Type u} [Shown α] (l : List α) : String :=
  "\x7b" ++ Text.join ", " (l.map shown) ++ "\x7d"

instance : Shown Nat where
  shown n := toString n

instance : Shown String where
  shown s := s

instance {α : Type u} [Ord α] [Shown α] : Shown (SortedSet α) where
  shown s := shownAll s.toList

end DrawnModels
