import DrawnModels.Coverability.Tree

/-!
# Coverability trees as text

A tree is listed from the root downwards with a line for each node, indented by its depth. The line
names the transition that led to the node, its number, its marking, and whether the marking was in
the tree already.
-/

namespace DrawnModels

namespace Coverability

namespace Tree

variable {cap : Capacity}

def arrow (t : Tree cap) (n : Node cap) : String :=
  match n.origin.bind fun o => t.transitionName? o.transition with
  | some name => "--" ++ name ++ "--> "
  | none => ""

def line (t : Tree cap) (depth id : Nat) (n : Node cap) : String :=
  .ofList (List.replicate (2 * depth) ' ') ++ t.arrow n ++ "n" ++ toString id ++ " " ++
    n.marking.labelled t.places ", " ++
    match n.kind with
    | .explored => ""
    | .revisited => " [repeat]"

def lines (t : Tree cap) : List String :=
  t.depthFirst.filterMap fun e => (t.node? e.2).map (t.line e.1 e.2)

def listing (t : Tree cap) : String :=
  Text.join "\n" t.lines

end Tree

end Coverability

end DrawnModels
