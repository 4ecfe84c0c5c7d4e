import GraphGrammar.Graph.Basic
import GraphGrammar.Label.Merge
import GraphGrammar.Label.Strings

/-!
Descriptions of subgraphs. A description names its new nodes by placeholders, and its edges run between
placeholders and nodes of the graph. Placeholders also stand for the new ids in the texts of the edges.
-/

namespace GraphGrammar

/-- An edge that a rule matched, with its endpoints. -/
structure MatchedEdge where
  src : Node
  dest : Node
  edge : Edge

inductive Endpoint where
  | placeholder (name : String)
  | node (id : NodeId)
deriving DecidableEq

structure NodeSpec where
  name : String
  label : Label

structure EdgeSpec where
  src : Endpoint
  dest : Endpoint
  label : Label
  prereq : Option Label := none

namespace EdgeSpec

def reemit (edge : Edge) : EdgeSpec := ⟨.node edge.src, .node edge.dest, edge.label, edge.prereq⟩

/-- The edge with a patch written over its label. -/
def merged (spec : EdgeSpec) (patch : Label) : EdgeSpec :=
  { spec with label := spec.label.merge patch }

/-- The edge with some texts of its label and prerequisite replaced. -/
def mapStrings (spec : EdgeSpec) (f : String → Option String) : EdgeSpec :=
  { spec with label := spec.label.mapStrings f, prereq := spec.prereq.map (·.mapStrings f) }

end EdgeSpec

structure SubgraphSpec where
  nodes : List NodeSpec
  edges : List EdgeSpec

instance : Inhabited SubgraphSpec := ⟨⟨[], []⟩⟩

/-- What the nodes of a description became, in their order. -/
abbrev Bindings := List (String × NodeId)

namespace Bindings

/-- The node of a placeholder. Of several that are declared under one name the last one counts. -/
def node? (bindings : Bindings) (name : String) : Option NodeId :=
  List.lookup name (List.reverse bindings)

def text? (bindings : Bindings) (name : String) : Option String :=
  (node? bindings name).map NodeId.text

/-- The node that an endpoint stands for. A name that is no placeholder may be the id of a node. -/
def resolve? (bindings : Bindings) : Endpoint → Option NodeId
  | .node id => some id
  | .placeholder name => (node? bindings name).orElse fun _ => NodeId.parse? name

end Bindings

end GraphGrammar
