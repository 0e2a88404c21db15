/-! # Policy graphs

An agent's policy drawn as a graph in the dot format: vertices are labelled with the action taken,
edges with the observation that leads from one history to the next. Edges have no arrowheads, since
the drawing reads from top to bottom. -/

set_option autoImplicit false

namespace TeamPlanning

/-- A graph whose vertices are numbered by their place in the list of labels. -/
structure PolicyGraph where
  vertices : List String
  edges : List (Nat × Nat × String)
  deriving DecidableEq, Repr

namespace PolicyGraph

/-- A character inside a quoted label: quotes and backslashes are escaped, and a line break ends a
line that is aligned to the left. -/
def escape : Char → List Char
  | '"' => ['\\', '"']
  | '\\' => ['\\', '\\']
  | '\n' => ['\\', 'l']
  | c => [c]

def labelText (label : String) : String :=
  "[ label = \"" ++ String.ofList (label.toList.flatMap escape) ++ "\" ]"

private def vertexLine (label : String) (number : Nat) : String :=
  s!"    {number} " ++ labelText label ++ "\n"

private def edgeLine (labels : Bool) : Nat × Nat × String → String
  | (start, stop, label) =>
      s!"    {start} -> {stop} " ++ (if labels then labelText label else "[ ]") ++ "\n"

/-- The graph of an agent's policy in the dot format, with or without labels on its edges. -/
def toDot (graph : PolicyGraph) (agent : Nat) (labels : Bool) : String :=
  s!"digraph policyAgent{agent} " ++ "\x7b\n    edge [dir=none];\n" ++
    String.join (graph.vertices.zipIdx.map fun (label, number) => vertexLine label number) ++
    String.join (graph.edges.map (edgeLine labels)) ++ "\x7d\n"

end PolicyGraph

end TeamPlanning
