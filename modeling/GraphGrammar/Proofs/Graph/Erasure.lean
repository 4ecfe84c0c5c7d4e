import GraphGrammar.Proofs.Graph.Application
import GraphGrammar.Proofs.Graph.Listing
import GraphGrammar.Proofs.Graph.Sound
import GraphGrammar.Proofs.Label.Erasure

/-!
Graphs without a key of their labels. The key is taken from the labels of all nodes and edges, and the
prerequisites stay. Every operation on a graph can be done after this as well as before.
-/

namespace GraphGrammar

variable {key : String}

def Node.strip (key : String) (node : Node) : Node := { node with label := node.label.erase key }

def Edge.strip (key : String) (edge : Edge) : Edge := { edge with label := edge.label.erase key }

def MatchedEdge.strip (key : String) (m : MatchedEdge) : MatchedEdge :=
  ⟨m.src.strip key, m.dest.strip key, m.edge.strip key⟩

def NodeSpec.strip (key : String) (spec : NodeSpec) : NodeSpec :=
  { spec with label := spec.label.erase key }

def EdgeSpec.strip (key : String) (spec : EdgeSpec) : EdgeSpec :=
  { spec with label := spec.label.erase key }

def SubgraphSpec.strip (key : String) (spec : SubgraphSpec) : SubgraphSpec :=
  ⟨spec.nodes.map (NodeSpec.strip key), spec.edges.map (EdgeSpec.strip key)⟩

namespace Graph

def strip (key : String) (g : Graph) : Graph where
  nodeMap := g.nodeMap.map fun _ node => node.strip key
  edgeMap := g.edgeMap.map fun _ edge => edge.strip key
  ids := g.ids
  closed := by
    refine g.closed.of_origin (fun found => ?_) (fun found => ?_) fun _ => Std.ExtTreeMap.contains_map
    · rw [Std.ExtTreeMap.getElem?_map] at found
      obtain ⟨old, there, rfl⟩ := Option.map_eq_some_iff.mp found
      exact ⟨old, there, rfl⟩
    · rw [Std.ExtTreeMap.getElem?_map] at found
      obtain ⟨old, there, rfl⟩ := Option.map_eq_some_iff.mp found
      exact ⟨old, there, rfl, rfl, rfl⟩

variable {g : Graph}

theorem node?_strip (g : Graph) (id : NodeId) :
    (g.strip key).node? id = (g.node? id).map (Node.strip key) :=
  Std.ExtTreeMap.getElem?_map

theorem edge?_strip (g : Graph) (id : EdgeId) :
    (g.strip key).edge? id = (g.edge? id).map (Edge.strip key) :=
  Std.ExtTreeMap.getElem?_map

theorem hasNode_strip (g : Graph) (id : NodeId) : (g.strip key).hasNode id = g.hasNode id := by
  rw [hasNode_eq, hasNode_eq, node?_strip, Option.isSome_map]

theorem hasEdge_strip (g : Graph) (id : EdgeId) : (g.strip key).hasEdge id = g.hasEdge id := by
  rw [hasEdge_eq, hasEdge_eq, edge?_strip, Option.isSome_map]

theorem nodes_strip (g : Graph) : (g.strip key).nodes = g.nodes.map (Node.strip key) := by
  simp only [nodes, strip, values_eq_map_toList, Std.ExtTreeMap.toList_map, List.map_map]
  rfl

theorem edges_strip (g : Graph) : (g.strip key).edges = g.edges.map (Edge.strip key) := by
  simp only [edges, strip, values_eq_map_toList, Std.ExtTreeMap.toList_map, List.map_map]
  rfl

theorem addNode_strip (g : Graph) (label : Label) :
    (g.strip key).addNode (label.erase key) =
      ((g.addNode label).1, (g.addNode label).2.strip key) := by
  refine Prod.ext rfl (eq_of_lookup (fun id => ?_) (fun id => ?_) rfl)
  · rw [node?_addNode, node?_strip, node?_strip, node?_addNode]
    change (if g.ids.peekNode = id then _ else _) = _
    split
    · rfl
    · rfl
  · rw [edge?_addNode, edge?_strip, edge?_strip, edge?_addNode]

theorem eraseEdge_strip (g : Graph) (id : EdgeId) :
    (g.strip key).eraseEdge id = (g.eraseEdge id).strip key := by
  refine eq_of_lookup (fun k => ?_) (fun k => ?_) rfl
  · rw [node?_eraseEdge, node?_strip, node?_strip, node?_eraseEdge]
  · rw [edge?_eraseEdge, edge?_strip, edge?_strip, edge?_eraseEdge]
    split
    · rfl
    · rfl

theorem modifyNodeLabel_strip {id : NodeId} {f f' : Label → Label}
    (same : ∀ label, f' (label.erase key) = (f label).erase key) :
    (g.strip key).modifyNodeLabel id f' = (g.modifyNodeLabel id f).strip key := by
  refine eq_of_lookup (fun k => ?_) (fun k => ?_) rfl
  · rw [node?_modifyNodeLabel, node?_strip, node?_strip, node?_modifyNodeLabel]
    split
    · next hit =>
      subst hit
      cases found : g.node? id with
      | none => rfl
      | some node => exact congrArg (fun l => some (Node.mk node.id l)) (same node.label)
    · rfl
  · exact (edge?_strip g k).trans (edge?_strip (g.modifyNodeLabel id f) k).symm

theorem modifyEdgeLabel_strip {id : EdgeId} {f f' : Label → Label}
    (same : ∀ label, f' (label.erase key) = (f label).erase key) :
    (g.strip key).modifyEdgeLabel id f' = (g.modifyEdgeLabel id f).strip key := by
  refine eq_of_lookup (fun k => ?_) (fun k => ?_) rfl
  · exact (node?_strip g k).trans (node?_strip (g.modifyEdgeLabel id f) k).symm
  · rw [edge?_modifyEdgeLabel, edge?_strip, edge?_strip, edge?_modifyEdgeLabel]
    split
    · next hit =>
      subst hit
      cases found : g.edge? id with
      | none => rfl
      | some edge =>
        exact congrArg (fun l => some (Edge.mk edge.id edge.src edge.dest l edge.prereq))
          (same edge.label)
    · rfl

theorem addNodes_strip (g : Graph) (specs : List NodeSpec) :
    (g.strip key).addNodes (specs.map (NodeSpec.strip key)) =
      ((g.addNodes specs).1, (g.addNodes specs).2.strip key) := by
  induction specs generalizing g with
  | nil => rfl
  | cons spec rest ih =>
    have first : (g.strip key).addNode (spec.label.erase key) = _ := addNode_strip g spec.label
    rw [List.map_cons, addNodes_cons, addNodes_cons, NodeSpec.strip, first, ih]

theorem addEdge_strip (g : Graph) (src dest : NodeId) (label : Label) (prereq : Option Label) :
    (g.strip key).addEdge src dest (label.erase key) prereq =
      (g.addEdge src dest label prereq).map fun (id, h) => (id, h.strip key) := by
  by_cases present : g.hasNode src = true ∧ g.hasNode dest = true
  · have present' : (g.strip key).hasNode src = true ∧ (g.strip key).hasNode dest = true := by
      rwa [hasNode_strip, hasNode_strip]
    have added := addEdge_of_present label prereq present
    have added' := addEdge_of_present (label.erase key) prereq present'
    rw [added', added]
    refine congrArg (fun h => Except.ok (g.ids.peekEdge, h)) (eq_of_lookup (fun k => ?_) (fun k => ?_) rfl)
    · rw [node?_addEdge added', node?_strip, node?_strip, node?_addEdge added]
    · rw [edge?_addEdge added', edge?_strip, edge?_strip, edge?_addEdge added]
      change (if g.ids.peekEdge = k then _ else _) = _
      split
      · rfl
      · rfl
  · have absent' : ¬((g.strip key).hasNode src = true ∧ (g.strip key).hasNode dest = true) := by
      rwa [hasNode_strip, hasNode_strip]
    rw [addEdge_of_absent absent', addEdge_of_absent present, hasNode_strip]
    rfl

theorem addEdgeSpec_strip (g : Graph) (bindings : Bindings) (spec : EdgeSpec) :
    (g.strip key).addEdgeSpec bindings (spec.strip key) =
      (g.addEdgeSpec bindings spec).map fun (id, h) => (id, h.strip key) := by
  have label : ((spec.strip key).mapStrings bindings.text?).label =
      (spec.mapStrings bindings.text?).label.erase key :=
    (Label.erase_mapStrings bindings.text? spec.label).symm
  unfold addEdgeSpec
  change (bindings.resolve? spec.src >>= fun src => bindings.resolve? spec.dest >>= fun dest =>
    ((g.strip key).addEdge src dest ((spec.strip key).mapStrings bindings.text?).label
      (spec.mapStrings bindings.text?).prereq).toOption) = _
  cases bindings.resolve? spec.src with
  | none => rfl
  | some src =>
    cases bindings.resolve? spec.dest with
    | none => rfl
    | some dest =>
      simp only [Option.bind_eq_bind, Option.bind_some]
      rw [label, addEdge_strip]
      cases g.addEdge src dest (spec.mapStrings bindings.text?).label
        (spec.mapStrings bindings.text?).prereq with
      | error e => rfl
      | ok pair => rfl

theorem addEdgeSpecs_strip (g : Graph) (bindings : Bindings) (specs : List EdgeSpec) :
    (g.strip key).addEdgeSpecs bindings (specs.map (EdgeSpec.strip key)) =
      ((g.addEdgeSpecs bindings specs).1, (g.addEdgeSpecs bindings specs).2.1,
        (g.addEdgeSpecs bindings specs).2.2.strip key) := by
  induction specs generalizing g with
  | nil => rfl
  | cons spec rest ih =>
    rw [List.map_cons, addEdgeSpecs, addEdgeSpecs, addEdgeSpec_strip]
    cases g.addEdgeSpec bindings spec with
    | none =>
      simp only [Option.map_none, ih g]
    | some pair =>
      simp only [Option.map_some, ih pair.2]

theorem insertSubgraph_strip (g : Graph) (spec : SubgraphSpec) :
    (g.strip key).insertSubgraph (spec.strip key) =
      ((g.insertSubgraph spec).1, (g.insertSubgraph spec).2.strip key) := by
  unfold insertSubgraph SubgraphSpec.strip
  simp only [addNodes_strip, addEdgeSpecs_strip]

theorem replaceEdge_strip {build build' : MatchedEdge → Option SubgraphSpec} {id : EdgeId}
    {src dest : NodeId}
    (same : ∀ m : MatchedEdge, build' (m.strip key) = (build m).map (SubgraphSpec.strip key)) :
    (g.strip key).replaceEdge build' id src dest =
      ((g.replaceEdge build id src dest).1, (g.replaceEdge build id src dest).2.strip key) := by
  unfold replaceEdge
  rw [node?_strip, node?_strip, edge?_strip]
  cases hsrc : g.node? src with
  | none => rfl
  | some s =>
    cases hdest : g.node? dest with
    | none => rfl
    | some d =>
      cases hedge : g.edge? id with
      | none => rfl
      | some e =>
        have built := same ⟨s, d, e⟩
        simp only [Option.map_some]
        change build' ⟨s.strip key, d.strip key, e.strip key⟩ = _ at built
        rw [built]
        cases build ⟨s, d, e⟩ with
        | none => simp only [Option.map_none, eraseEdge_strip]; rfl
        | some spec => simp only [Option.map_some, eraseEdge_strip, insertSubgraph_strip]; rfl

end Graph

end GraphGrammar
