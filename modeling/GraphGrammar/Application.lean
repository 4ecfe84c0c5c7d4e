import GraphGrammar.Candidate

/-!
The application of a rule at a site. A candidate that no longer fits the graph changes nothing. An edge
of a subgraph whose ends are no nodes is dropped without taking an id.
-/

namespace GraphGrammar

structure Applied where
  updatedNode : Option NodeId := none
  updatedEdge : Option EdgeId := none
  removedEdge : Option EdgeId := none
  addedNodes : List NodeId := []
  addedEdges : List EdgeId := []
  droppedEdges : Nat := 0
deriving DecidableEq, Inhabited

namespace Graph

def addNodes (g : Graph) : List NodeSpec → Bindings × Graph
  | [] => ([], g)
  | spec :: rest =>
    let (id, g) := g.addNode spec.label
    let (bindings, g) := addNodes g rest
    ((spec.name, id) :: bindings, g)

def addEdgeSpec (g : Graph) (bindings : Bindings) (spec : EdgeSpec) : Option (EdgeId × Graph) := do
  let src ← bindings.resolve? spec.src
  let dest ← bindings.resolve? spec.dest
  let bound := spec.mapStrings bindings.text?
  (g.addEdge src dest bound.label bound.prereq).toOption

/-- Adds the edges of a description in order. The result holds the new ids and the number of edges
that were dropped. -/
def addEdgeSpecs (g : Graph) (bindings : Bindings) : List EdgeSpec → List EdgeId × Nat × Graph
  | [] => ([], 0, g)
  | spec :: rest =>
    match g.addEdgeSpec bindings spec with
    | some (id, g) =>
      let (ids, dropped, g) := addEdgeSpecs g bindings rest
      (id :: ids, dropped, g)
    | none =>
      let (ids, dropped, g) := addEdgeSpecs g bindings rest
      (ids, dropped + 1, g)

def insertSubgraph (g : Graph) (spec : SubgraphSpec) : Applied × Graph :=
  let (bindings, g) := g.addNodes spec.nodes
  let (edges, dropped, g) := g.addEdgeSpecs bindings spec.edges
  ({ addedNodes := bindings.map Prod.snd, addedEdges := edges, droppedEdges := dropped }, g)

/-- Replaces an edge by what is built from it and from the nodes of the site. -/
def replaceEdge (g : Graph) (build : MatchedEdge → Option SubgraphSpec) (id : EdgeId)
    (src dest : NodeId) : Applied × Graph :=
  match g.node? src, g.node? dest, g.edge? id with
  | some src, some dest, some edge =>
    let g := g.eraseEdge id
    let (applied, g) := match build ⟨src, dest, edge⟩ with
      | some spec => g.insertSubgraph spec
      | none => ({}, g)
    ({ applied with removedEdge := some edge.id }, g)
  | _, _, _ => ({}, g)

def applyAt (g : Graph) (kind : RuleKind) (site : Site) : Applied × Graph :=
  match kind, site with
  | .node _ update, .node id =>
    if g.hasNode id then ({ updatedNode := some id }, g.modifyNodeLabel id update.run) else ({}, g)
  | .edge _ update, .edge id _ _ =>
    if g.hasEdge id then ({ updatedEdge := some id }, g.modifyEdgeLabel id update.run) else ({}, g)
  | .graph _ build, .edge id src dest => g.replaceEdge build id src dest
  | _, _ => ({}, g)

def apply (g : Graph) (c : Candidate) : Applied × Graph := g.applyAt c.rule.kind c.site

end Graph

end GraphGrammar
