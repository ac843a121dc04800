import StatementGraph.Graph.Containment

namespace StatementGraph

/-- A directed graph with labels. Edges name nodes by their positions. -/
structure Dot where
  nodes : List String
  edges : List (Nat × Nat × String)

namespace Dot

def escapedChar (c : Char) : String :=
  match c with
  | '"' => "\\\""
  | '\\' => "\\\\"
  | '\n' => "\\l"
  | _ => c.toString

def labelText (label : String) : String :=
  "[ label = \"" ++ String.join (label.toList.map escapedChar) ++ "\" ]"

def nodeText (label : String) (position : Nat) : String :=
  "    " ++ toString position ++ " " ++ labelText label ++ "\n"

def edgeText (edge : Nat × Nat × String) : String :=
  "    " ++ toString edge.1 ++ " -> " ++ toString edge.2.1 ++ " " ++ labelText edge.2.2 ++ "\n"

/-- The text of a graph: its nodes by position, then its edges. -/
def text (g : Dot) : String :=
  "digraph \x7b\n" ++ String.join ((g.nodes.zipIdx).map fun (label, position) =>
    nodeText label position) ++ String.join (g.edges.map edgeText) ++ "\x7d\n"

end Dot

/-- The label of a statement in a drawing: its name, or its id if it has none, and its term. -/
def Statement.dotLabel (st : Statement) : String :=
  let name := match st.identifier with
    | some name => name.text
    | none => st.id.text
  name ++ " : " ++ st.term.text

def Statement.dotEdges (members : List StatementId) (st : Statement) (position : Nat) :
    List (Nat × Nat × String) :=
  let uses := st.dependencies.toList.filterMap fun dep =>
    (members.idxOf? dep).map fun i => (i, position, "uses")
  let contains := (st.owner.bind members.idxOf?).map fun i => (i, position, "contains")
  uses ++ contains.toList

/-- The drawing of a context and everything inside it, nodes by ascending id. -/
def Store.dot (s : Store) (context : StatementId) : Except Failure Dot := do
  let _ ← s.requireContext context
  let members := (s.subtree context).toList.filterMap s.get?
  let ids := members.map Statement.id
  return {
    nodes := members.map Statement.dotLabel
    edges := (members.zipIdx).flatMap fun (st, position) => st.dotEdges ids position }

end StatementGraph
