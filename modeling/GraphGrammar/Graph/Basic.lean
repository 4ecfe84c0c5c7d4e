import GraphGrammar.Graph.Closed
import GraphGrammar.Id.Allocator
import GraphGrammar.Label.Matching

/-!
Graphs of labelled nodes and directed, labelled edges. Nodes and edges are found by their ids and listed
in ascending order of them. A graph also holds the counters from which new ids are taken. An edge is
accepted only between nodes of the graph, and nodes are never removed, so that the ends of every edge are
there. This is part of what a graph is.
-/

namespace GraphGrammar

inductive GraphError where
  | danglingEndpoint (edge : EdgeId) (node : NodeId)
  | duplicateNode (node : NodeId)
  | duplicateEdge (edge : EdgeId)
deriving DecidableEq

def GraphError.message : GraphError → String
  | danglingEndpoint edge node => "edge " ++ edge.text ++ " references missing node " ++ node.text
  | duplicateNode node => "duplicate node id " ++ node.text
  | duplicateEdge edge => "duplicate edge id " ++ edge.text

structure Graph where
  nodeMap : Std.ExtTreeMap NodeId Node
  edgeMap : Std.ExtTreeMap EdgeId Edge
  ids : Allocator
  closed : Graph.Closed nodeMap edgeMap

namespace Graph

def empty : Graph := ⟨∅, ∅, .start, .empty⟩

instance : Inhabited Graph := ⟨empty⟩
instance : EmptyCollection Graph := ⟨empty⟩

/-! ## Reading -/

def node? (g : Graph) (id : NodeId) : Option Node := g.nodeMap[id]?

def edge? (g : Graph) (id : EdgeId) : Option Edge := g.edgeMap[id]?

def hasNode (g : Graph) (id : NodeId) : Bool := g.nodeMap.contains id

def hasEdge (g : Graph) (id : EdgeId) : Bool := g.edgeMap.contains id

def nodes (g : Graph) : List Node := g.nodeMap.values

def edges (g : Graph) : List Edge := g.edgeMap.values

def nodeCount (g : Graph) : Nat := g.nodeMap.size

def edgeCount (g : Graph) : Nat := g.edgeMap.size

/-- Refuses endpoints that are no nodes of the graph, the source first. -/
def checkEndpoints (g : Graph) (edge : EdgeId) (src dest : NodeId) :
    Except GraphError (PLift (g.hasNode src = true ∧ g.hasNode dest = true)) :=
  if hsrc : g.hasNode src = true then
    if hdest : g.hasNode dest = true then .ok ⟨hsrc, hdest⟩
    else .error (.danglingEndpoint edge dest)
  else .error (.danglingEndpoint edge src)

def checkIntegrity (g : Graph) : Except GraphError Unit :=
  g.edges.forM fun e => discard (g.checkEndpoints e.id e.src e.dest)

/-! ## Writing -/

def addNode (g : Graph) (label : Label) : NodeId × Graph :=
  let (id, ids) := g.ids.takeNode
  let node : Node := ⟨id, label⟩
  (id, { g with nodeMap := g.nodeMap.insert node.id node, ids, closed := g.closed.insertNode node })

/-- The graph with an edge between two of its nodes, and with the given counters. -/
def putEdge (g : Graph) (edge : Edge) (ids : Allocator)
    (present : g.hasNode edge.src = true ∧ g.hasNode edge.dest = true) : Graph :=
  { g with
    edgeMap := g.edgeMap.insert edge.id edge, ids, closed := g.closed.insertEdge edge present }

/-- Adds an edge under a fresh id. A refused edge takes no id. -/
def addEdge (g : Graph) (src dest : NodeId) (label : Label) (prereq : Option Label) :
    Except GraphError (EdgeId × Graph) := do
  let present ← g.checkEndpoints g.ids.peekEdge src dest
  let (id, ids) := g.ids.takeEdge
  return (id, g.putEdge ⟨id, src, dest, label, prereq⟩ ids present.down)

def insertNode (g : Graph) (node : Node) : Except GraphError Graph :=
  if g.hasNode node.id then .error (.duplicateNode node.id)
  else .ok { g with
    nodeMap := g.nodeMap.insert node.id node, ids := g.ids.observeNode node.id,
    closed := g.closed.insertNode node }

def insertEdge (g : Graph) (edge : Edge) : Except GraphError Graph := do
  if g.hasEdge edge.id then throw (.duplicateEdge edge.id)
  let present ← g.checkEndpoints edge.id edge.src edge.dest
  return g.putEdge edge (g.ids.observeEdge edge.id) present.down

/-- The graph without an edge. Its id stays retired. -/
def eraseEdge (g : Graph) (id : EdgeId) : Graph :=
  { g with edgeMap := g.edgeMap.erase id, closed := g.closed.eraseEdge id }

def modifyNodeLabel (g : Graph) (id : NodeId) (f : Label → Label) : Graph :=
  { g with
    nodeMap := g.nodeMap.modify id fun n => { n with label := f n.label }
    closed := g.closed.modifyNode id fun _ => rfl }

def modifyEdgeLabel (g : Graph) (id : EdgeId) (f : Label → Label) : Graph :=
  { g with
    edgeMap := g.edgeMap.modify id fun e => { e with label := f e.label }
    closed := g.closed.modifyEdge id fun _ => ⟨rfl, rfl, rfl⟩ }

def setPrereq (g : Graph) (id : EdgeId) (prereq : Option Label) : Graph :=
  { g with
    edgeMap := g.edgeMap.modify id fun e => { e with prereq }
    closed := g.closed.modifyEdge id fun _ => ⟨rfl, rfl, rfl⟩ }

end Graph

/-! ## Equality -/

instance : BEq Node := ⟨fun a b => a.id == b.id && a.label == b.label⟩

instance : BEq Edge :=
  ⟨fun a b => a.id == b.id && a.src == b.src && a.dest == b.dest && a.label == b.label &&
    a.prereq == b.prereq⟩

/-- Equal nodes and edges with numerically equal labels, and equal counters. -/
instance : BEq Graph := ⟨fun a b => a.nodes == b.nodes && a.edges == b.edges && a.ids == b.ids⟩

end GraphGrammar
