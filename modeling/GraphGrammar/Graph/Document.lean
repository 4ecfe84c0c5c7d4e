import GraphGrammar.Json.Writer
import GraphGrammar.Label.Document

/-!
Graph documents: the lists of nodes and edges of a graph and its two counters. A document is loaded by
inserting all nodes in order and then all edges, so that the first violation is the one reported. The
counters continue from the stored ones or from the ids that are there, whichever are further.
-/

namespace GraphGrammar

open Json (Tree Reads)

structure GraphDocument where
  nodes : List Node
  edges : List Edge
  nextNode : UInt64
  nextEdge : UInt64

namespace GraphDocument

def load (d : GraphDocument) : Except GraphError Graph := do
  let g ← d.nodes.foldlM Graph.insertNode ∅
  let g ← d.edges.foldlM Graph.insertEdge g
  return { g with ids := g.ids.resumeFrom ⟨d.nextNode⟩ ⟨d.nextEdge⟩ }

def ofGraph (g : Graph) : GraphDocument :=
  ⟨g.nodes, g.edges, g.ids.nextNode, g.ids.nextEdge⟩

end GraphDocument

def readNodeId : Reads NodeId := fun tree => do
  (NodeId.ofText (← Json.readString tree)).mapError fun e => .invalid (.malformedId e)

def readEdgeId : Reads EdgeId := fun tree => do
  (EdgeId.ofText (← Json.readString tree)).mapError fun e => .invalid (.malformedId e)

def readNode : Reads Node :=
  Json.readRecord (Node.mk
    <$> .required "id" readNodeId
    <*> .withDefault "label" ∅ readLabel)

def readEdge : Reads Edge :=
  Json.readRecord (Edge.mk
    <$> .required "id" readEdgeId
    <*> .required "src" readNodeId
    <*> .required "dest" readNodeId
    <*> .withDefault "label" ∅ readLabel
    <*> .optional "prereq" readLabel)

def readGraphDocument : Reads GraphDocument :=
  Json.readRecord (GraphDocument.mk
    <$> .withDefault "nodes" [] (Json.readList readNode)
    <*> .withDefault "edges" [] (Json.readList readEdge)
    <*> .withDefault "next_node" 0 Json.readWord64
    <*> .withDefault "next_edge" 0 Json.readWord64)

def readGraph : Reads Graph := fun tree => do
  (← readGraphDocument tree).load.mapError fun e => .invalid (.inconsistent e)

def Node.toTree (node : Node) : Tree :=
  .object [("id", .string node.id.text), ("label", node.label.toTree)]

def Edge.toTree (edge : Edge) : Tree :=
  .object (("id", .string edge.id.text) :: ("src", .string edge.src.text) ::
    ("dest", .string edge.dest.text) :: ("label", edge.label.toTree) ::
    Json.optionalMember "prereq" Label.toTree edge.prereq)

def GraphDocument.toTree (d : GraphDocument) : Tree :=
  .object [
    ("nodes", .array (d.nodes.map Node.toTree)),
    ("edges", .array (d.edges.map Edge.toTree)),
    ("next_node", .number (.natural d.nextNode)),
    ("next_edge", .number (.natural d.nextEdge))]

def Graph.toTree (g : Graph) : Tree := (GraphDocument.ofGraph g).toTree

namespace Graph

def ofText (text : String) : Except DocumentError Graph := Json.readText readGraph text

def text (g : Graph) : String := g.toTree.render

end Graph

end GraphGrammar
