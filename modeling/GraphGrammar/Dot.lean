import GraphGrammar.Graph.Document

/-!
Drawings of graphs in the DOT language. A node is drawn with its id and a caption, an edge with its
type, its state and its prerequisite, and a locked edge is dashed. The text of a label can hold any
character: quotes and backslashes in it are escaped.
-/

namespace GraphGrammar.Dot

def escapeChar (c : Char) : List Char :=
  if c = '"' ∨ c = '\\' then ['\\', c] else [c]

def escape (s : String) : String := String.ofList (s.toList.flatMap escapeChar)

def lineBreak : String := "\\n"

/-- The role of a node, or else its name, or else its type. -/
def caption? (label : Label) : Option String := ["role", "name", "type"].findSome? label.string?

def nodeLines (node : Node) : List String :=
  node.id.text :: ((caption? node.label).map escape).toList

def nodeStatement (node : Node) : String :=
  "  \"" ++ node.id.text ++ "\" [label=\"" ++ String.intercalate lineBreak (nodeLines node) ++ "\"];\n"

/-- The node that has to be reached first, or the whole prerequisite if it names none. -/
def prereqText (prereq : Label) : String :=
  match prereq.string? "node_id" with
  | some id => "needs " ++ escape id
  | none => escape prereq.toTree.render

def edgeLines (edge : Edge) : List String :=
  ((edge.label.string? "type").map escape).toList ++
    ((edge.label.string? "state").map escape).toList ++ (edge.prereq.map prereqText).toList

def isDashed (edge : Edge) : Bool := edge.label.string? "state" == some "locked"

def edgeStatement (edge : Edge) : String :=
  "  \"" ++ edge.src.text ++ "\" -> \"" ++ edge.dest.text ++ "\" [label=\"" ++
    String.intercalate lineBreak (edgeLines edge) ++ "\"" ++
    (if isDashed edge then ", style=dashed" else "") ++ "];\n"

def render (g : Graph) : String :=
  "digraph warren \x7b\n  node [shape=box];\n" ++ String.join (g.nodes.map nodeStatement) ++
    String.join (g.edges.map edgeStatement) ++ "\x7d\n"

end GraphGrammar.Dot
