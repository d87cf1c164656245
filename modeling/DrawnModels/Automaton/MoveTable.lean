import DrawnModels.Collection.KeyedList

/-!
# Move tables

A move table says which state follows which state on which symbol. Moves are recorded one at a
time. A move that is recorded again changes nothing, and one that leads elsewhere than a move
recorded before clashes with it.
-/

namespace DrawnModels

abbrev MoveTable (σ : Type) := KeyedList (σ × String) σ

/-- Two moves from one state on one symbol that lead to different states. -/
structure Clash (σ : Type) where
  source : σ
  symbol : String
  first : σ
  second : σ
deriving DecidableEq

namespace MoveTable

variable {σ : Type} [DecidableEq σ]

def record (t : MoveTable σ) (source : σ) (symbol : String) (target : σ) :
    Except (Clash σ) (MoveTable σ) :=
  match t.find? (source, symbol) with
  | none => .ok (t.insert (source, symbol) target)
  | some first => if first = target then .ok t else .error ⟨source, symbol, first, target⟩

/-- The moves from one state in the order in which they were recorded. -/
def movesOf (t : MoveTable σ) (source : σ) : List (String × σ) :=
  t.entries.filterMap fun e => if e.1.1 = source then some (e.1.2, e.2) else none

end MoveTable

end DrawnModels
