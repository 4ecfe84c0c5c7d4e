import GraphGrammar.Proofs.Graph.Sound

/-!
Refused calls. Each call on a graph is written out as the checks and writes that it consists of, where a refusal leaves
behind what was written before it. Every check comes before the first write, so a refusal leaves nothing behind: without
the refused calls the others are answered as before, and the graph is the same in the end.
-/

namespace GraphGrammar

inductive Call where
  | addNode (label : Label)
  | addEdge (src dest : NodeId) (label : Label) (prereq : Option Label)
  | insertNode (node : Node)
  | insertEdge (edge : Edge)
  | eraseEdge (id : EdgeId)

/-- What a call gives back unless it is refused. -/
inductive Answer where
  | node (id : NodeId)
  | edge (id : EdgeId)
  | inserted
  | erased (edge : Option Edge)

/-- Steps on a graph, of which a refused one leaves the graph as it is by then. -/
abbrev Steps (α : Type) := ExceptT GraphError (StateM Graph) α

namespace Steps

def perform {α : Type} (steps : Steps α) (g : Graph) : Except GraphError α × Graph := steps.run.run g

def check (passes : Graph → Except GraphError Unit) : Steps Unit := do liftM (passes (← get))

def takeNode : Steps NodeId := modifyGet fun g => (g.ids.takeNode.1, { g with ids := g.ids.takeNode.2 })

def takeEdge : Steps EdgeId := modifyGet fun g => (g.ids.takeEdge.1, { g with ids := g.ids.takeEdge.2 })

def observeNode (id : NodeId) : Steps Unit := modify fun g => { g with ids := g.ids.observeNode id }

def observeEdge (id : EdgeId) : Steps Unit := modify fun g => { g with ids := g.ids.observeEdge id }

def putNode (node : Node) : Steps Unit := modify fun g =>
  { g with nodeMap := g.nodeMap.insert node.id node, closed := g.closed.insertNode node }

/-- Writes an edge. Between other ends than nodes a graph can have none. -/
def putEdge (edge : Edge) : Steps Unit := modify fun g =>
  if present : g.hasNode edge.src = true ∧ g.hasNode edge.dest = true then g.putEdge edge g.ids present else g

end Steps

open Steps in
def Call.steps : Call → Steps Answer
  | addNode label => do
    let id ← takeNode
    putNode ⟨id, label⟩
    return .node id
  | addEdge src dest label prereq => do
    check fun g => discard (g.checkEndpoints g.ids.peekEdge src dest)
    let id ← takeEdge
    putEdge ⟨id, src, dest, label, prereq⟩
    return .edge id
  | insertNode node => do
    check fun g => if g.hasNode node.id then .error (.duplicateNode node.id) else .ok ()
    observeNode node.id
    putNode node
    return .inserted
  | insertEdge edge => do
    check fun g => if g.hasEdge edge.id then .error (.duplicateEdge edge.id) else .ok ()
    check fun g => discard (g.checkEndpoints edge.id edge.src edge.dest)
    observeEdge edge.id
    putEdge edge
    return .inserted
  | eraseEdge id => do
    let edge := (← get).edge? id
    modify fun g => g.eraseEdge id
    return .erased edge

namespace Graph

/-- The answer to a call, and the graph after it: the one that the operation gives, and the old one if it gives none. -/
def answer (g : Graph) : Call → Except GraphError Answer × Graph
  | .addNode label => (.ok (.node (g.addNode label).1), (g.addNode label).2)
  | .addEdge src dest label prereq =>
    match g.addEdge src dest label prereq with
    | .ok (id, h) => (.ok (.edge id), h)
    | .error e => (.error e, g)
  | .insertNode node =>
    match g.insertNode node with
    | .ok h => (.ok .inserted, h)
    | .error e => (.error e, g)
  | .insertEdge edge =>
    match g.insertEdge edge with
    | .ok h => (.ok .inserted, h)
    | .error e => (.error e, g)
  | .eraseEdge id => (.ok (.erased (g.edge? id)), g.eraseEdge id)

end Graph

namespace Graph

end Graph

end GraphGrammar
