import DrawnModels.Text.Pieces

/-!
# Graphs in the DOT language

A digraph is written line by line: its name, statements about the whole, the nodes, the edges of
one node after the other.

Names and identifiers stand in double quotes with backslashes and quotes escaped. In labels only
quotes are escaped, since a backslash in a label belongs to an escape such as the one for a line
break. Shapes and styles are written as they are.
-/

namespace DrawnModels

namespace Dot

def identifier (s : String) : String :=
  .ofList ('"' :: s.toList.flatMap (fun c => if c = '\\' ∨ c = '"' then ['\\', c] else [c]) ++ ['"'])

def escapeQuotes (s : String) : String :=
  .ofList (s.toList.flatMap fun c => if c = '"' then ['\\', c] else [c])

inductive NodeAttribute
  | label (s : String)
  | shape (s : String)
  | style (s : String)
deriving DecidableEq

namespace NodeAttribute

def render : NodeAttribute → String
  | label s => "label=\"" ++ escapeQuotes s ++ "\""
  | shape s => "shape=\"" ++ s ++ "\""
  | style s => "style=\"" ++ s ++ "\""

end NodeAttribute

inductive EdgeAttribute
  | label (s : String)
deriving DecidableEq

namespace EdgeAttribute

def render : EdgeAttribute → String
  | label s => "label=\"" ++ escapeQuotes s ++ "\""

end EdgeAttribute

/-- What is written of a structure whose nodes are values of `ι`. -/
structure Digraph (ι : Type) where
  name : Option String
  header : List String
  nodes : List ι
  ident : ι → String
  attributes : ι → List NodeAttribute
  /-- The edges from a node, each with its target. -/
  edgesFrom : ι → List (ι × List EdgeAttribute)

namespace Digraph

variable {ι : Type}

def firstLine (g : Digraph ι) : String :=
  "digraph " ++ identifier (g.name.getD "A") ++ " \x7b"

def nodeLine (g : Digraph ι) (i : ι) : String :=
  identifier (g.ident i) ++ " [" ++ Text.join ", " ((g.attributes i).map NodeAttribute.render) ++ "]"

def edgeLine (g : Digraph ι) (i : ι) (e : ι × List EdgeAttribute) : String :=
  identifier (g.ident i) ++ " -> " ++ identifier (g.ident e.1) ++
    " [" ++ Text.join ", " (e.2.map EdgeAttribute.render) ++ "]"

def lines (g : Digraph ι) : List String :=
  g.firstLine :: g.header ++ g.nodes.map g.nodeLine ++
    g.nodes.flatMap (fun i => (g.edgesFrom i).map (g.edgeLine i)) ++ ["\x7d"]

def render (g : Digraph ι) : String :=
  Text.join "\n" g.lines

end Digraph

end Dot

end DrawnModels
