import GraphGrammar.Rule.Subgraph

/-!
Templates of subgraphs, the right-hand sides that a document can hold. In a template `$src` and `$dest`
stand for the endpoints of the matched edge, as ends of an edge and in the texts of its label and
prerequisite. An end that is not given is the matched one.
-/

namespace GraphGrammar

structure EdgeTemplate where
  /-- Whether the edge continues the matched edge, with its label and prerequisite. -/
  reemit : Bool
  src : Option String
  dest : Option String
  label : Label
  prereq : Option Label

structure SubgraphTemplate where
  nodes : List NodeSpec
  edges : List EdgeTemplate

def srcPlaceholder : String := "$src"

def destPlaceholder : String := "$dest"

namespace MatchedEdge

def reserved? (m : MatchedEdge) (name : String) : Option NodeId :=
  if name = srcPlaceholder then some m.src.id
  else if name = destPlaceholder then some m.dest.id
  else none

def endpoint (m : MatchedEdge) (default : Endpoint) : Option String → Endpoint
  | none => default
  | some name =>
    match m.reserved? name with
    | some id => .node id
    | none => .placeholder name

end MatchedEdge

def EdgeTemplate.instantiate (t : EdgeTemplate) (m : MatchedEdge) : EdgeSpec :=
  let base : EdgeSpec :=
    if t.reemit then (EdgeSpec.reemit m.edge).merged t.label
    else ⟨.node m.src.id, .node m.dest.id, t.label, none⟩
  let spec : EdgeSpec := {
    src := m.endpoint base.src t.src
    dest := m.endpoint base.dest t.dest
    label := base.label
    prereq := t.prereq.or base.prereq }
  spec.mapStrings fun s => (m.reserved? s).map NodeId.text

def SubgraphTemplate.instantiate (t : SubgraphTemplate) (m : MatchedEdge) : SubgraphSpec :=
  ⟨t.nodes, t.edges.map fun e => e.instantiate m⟩

end GraphGrammar
