import DrawnModels.Collection.KeyedList
import DrawnModels.Collection.SortedSet

/-!
# Petri nets

Places are numbered in the order of their names, transitions in the order in which they are
declared. A transition lists a place once for every arc from or to it, so the weight of an arc is
the number of times that the place is listed.
-/

namespace DrawnModels

structure Transition where
  inputs : List Nat
  outputs : List Nat
deriving DecidableEq

namespace Transition

def empty : Transition :=
  ⟨[], []⟩

def inputWeight (t : Transition) (place : Nat) : Nat :=
  t.inputs.count place

def outputWeight (t : Transition) (place : Nat) : Nat :=
  t.outputs.count place

end Transition

/-- A transition whose arcs are given by the names of places. -/
structure NamedTransition where
  name : String
  inputs : List String
  outputs : List String
deriving DecidableEq

structure Net where
  places : SortedSet String
  transitions : KeyedList String Transition
deriving DecidableEq

namespace Net

/-- The transition with its arcs given by the positions of places. Arcs to unknown places are
dropped. -/
def resolve (places : SortedSet String) (t : NamedTransition) : Transition :=
  ⟨t.inputs.filterMap places.index?, t.outputs.filterMap places.index?⟩

/-- The net with the given places and transitions. A transition that is given again has the arcs
that are given last. -/
def make (places : List String) (transitions : List NamedTransition) : Net :=
  let places := SortedSet.ofList places
  ⟨places, .ofList (transitions.map fun t => (t.name, resolve places t))⟩

def placeCount (n : Net) : Nat :=
  n.places.size

/-- The names of the places in the order of their numbers. -/
def placeNames (n : Net) : List String :=
  n.places.toList

def placeId? (n : Net) (name : String) : Option Nat :=
  n.places.index? name

def placeName? (n : Net) (place : Nat) : Option String :=
  n.placeNames[place]?

/-- The transitions in the order of their numbers. -/
def transitionList (n : Net) : List Transition :=
  n.transitions.entries.map Prod.snd

def transition? (n : Net) (name : String) : Option Transition :=
  n.transitions.find? name

def transitionNames (n : Net) : List String :=
  n.transitions.keys

def transitionName? (n : Net) (t : Nat) : Option String :=
  n.transitionNames[t]?

/-- Whether two nets have the same places and the same transitions, these in whatever order. -/
def agrees (m n : Net) : Bool :=
  m.places = n.places && m.transitions.sameMap n.transitions

end Net

end DrawnModels
