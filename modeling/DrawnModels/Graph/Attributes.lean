import DrawnModels.Collection.KeyedList
import DrawnModels.Text.Pieces

/-!
# Attributes

Nodes and edges carry attributes, texts under distinct keys. Values are kept as they were written;
they are read without white space and without the double quotes around them.
-/

namespace DrawnModels

/-- The value that an attribute stands for: without white space at its ends, then without one
double quote in front and without one behind, then again without white space. -/
def unquote (raw : String) : String :=
  let inner := Text.trimChars raw.toList
  let inner := if inner.head? = some '"' then inner.tail else inner
  let inner := if inner.getLast? = some '"' then inner.dropLast else inner
  .ofList (Text.trimChars inner)

structure Attributes where
  table : KeyedList String String
deriving DecidableEq

namespace Attributes

def ofList (pairs : List (String × String)) : Attributes :=
  ⟨.ofList pairs⟩

def empty : Attributes :=
  ⟨.empty⟩

def isEmpty (a : Attributes) : Bool :=
  a.table.isEmpty

/-- The keys with the values as they were written, in the order of declaration. -/
def toList (a : Attributes) : List (String × String) :=
  a.table.entries

/-- The value of an attribute as it was written. -/
def raw? (a : Attributes) (key : String) : Option String :=
  a.table.find? key

/-- The value that an attribute stands for. -/
def get? (a : Attributes) (key : String) : Option String :=
  (a.raw? key).map unquote

def getD (a : Attributes) (key : String) : String :=
  (a.get? key).getD ""

def shape (a : Attributes) : String := a.getD "shape"

def style (a : Attributes) : String := a.getD "style"

def label (a : Attributes) : String := a.getD "label"

/-- Whether the same keys have the same written values, in whatever order. -/
def agrees (a b : Attributes) : Bool :=
  a.table.sameMap b.table

end Attributes

end DrawnModels
