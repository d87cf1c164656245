import DrawnModels.Petri.Marking
import DrawnModels.Text.Decimal
import DrawnModels.Text.Pieces

/-!
# Initial markings

An initial marking gives token counts to places by name, and none to the places it does not
mention. Its text lists entries of the form `place=count` or `place:count` between commas,
semicolons or line breaks. The first faulty entry is reported.
-/

namespace DrawnModels

inductive MarkingError
  /-- An entry is not of the form `place=count`. -/
  | malformedEntry (entry : String)
  /-- A count is no number within the capacity. -/
  | invalidCount (place count : String)
  /-- A place is given a second time. -/
  | duplicate (place : String)
deriving DecidableEq

namespace MarkingError

def message : MarkingError → String
  | malformedEntry entry =>
    "expected an entry of the form place=count, found \"" ++ entry ++ "\""
  | invalidCount place count =>
    "token count \"" ++ count ++ "\" of place \"" ++ place ++ "\" is not a non-negative integer"
  | duplicate place => "place \"" ++ place ++ "\" is given more than once"

end MarkingError

structure InitialMarking (cap : Capacity) where
  table : KeyedList String (Count cap)
deriving DecidableEq

namespace InitialMarking

variable {cap : Capacity}

def empty : InitialMarking cap :=
  ⟨.empty⟩

/-- The counts of the given places. For a place that is given twice the last count holds. -/
def ofList (counts : List (String × Count cap)) : InitialMarking cap :=
  ⟨.ofList counts⟩

def isEmpty (m : InitialMarking cap) : Bool :=
  m.table.isEmpty

def tokens (m : InitialMarking cap) (place : String) : Count cap :=
  (m.table.find? place).getD .zero

/-- The marking of a net. Counts for places that the net does not have are left out. -/
def forNet (m : InitialMarking cap) (n : Net) : Marking cap :=
  ⟨n.placeNames.map fun place => .finite (m.tokens place)⟩

def agrees (m n : InitialMarking cap) : Bool :=
  m.table.sameMap n.table

def isSeparator (c : Char) : Bool :=
  c = ',' || c = ';' || c = '\n'

def isAssignment (c : Char) : Bool :=
  c = '=' || c = ':'

/-- The entries of a text: its trimmed pieces, less the empty ones. -/
def entries (s : String) : List String :=
  (Text.trimmedPieces isSeparator s).filter (· ≠ "")

def splitEntry (entry : String) : Except MarkingError (String × String) :=
  match Text.cut? isAssignment entry with
  | none => .error (.malformedEntry entry)
  | some (place, count) =>
    if Text.trim place = "" then .error (.malformedEntry entry)
    else .ok (Text.trim place, Text.trim count)

def readCount (cap : Capacity) (place count : String) : Except MarkingError (Count cap) :=
  match (Text.readCount? count).bind (Count.ofNat? cap) with
  | some n => .ok n
  | none => .error (.invalidCount place count)

def addEntry (table : KeyedList String (Count cap)) (entry : String) :
    Except MarkingError (KeyedList String (Count cap)) := do
  let (place, count) ← splitEntry entry
  let n ← readCount cap place count
  if table.contains place then .error (.duplicate place)
  else .ok (table.insert place n)

def parse (cap : Capacity) (s : String) : Except MarkingError (InitialMarking cap) :=
  ((entries s).foldlM addEntry .empty).map InitialMarking.mk

end InitialMarking

end DrawnModels
