import GraphGrammar.Proofs.Graph.Placement

/-!
What is in a graph after a description was inserted: all that was there before, one node for each
described node, and one edge for each described edge between nodes. Nothing that was there is written
over as long as the ids do not run out.
-/

namespace GraphGrammar

namespace Graph

structure SubgraphAdded (g : Graph) (bindings : Bindings) (spec : SubgraphSpec) (h : Graph) :
    Prop where
  node : ∀ id, h.hasNode id = true ↔ id ∈ bindings.map Prod.snd ∨ g.hasNode id = true
  kept : ∀ {id edge}, g.edge? id = some edge → h.edge? id = some edge
  added : ∀ {e src dest}, e ∈ spec.edges → bindings.resolve? e.src = some src →
    bindings.resolve? e.dest = some dest → h.hasNode src = true → h.hasNode dest = true →
      ∃ id, h.edge? id = some (e.bound bindings id src dest)
  only : ∀ {id edge}, h.edge? id = some edge → g.edge? id = some edge ∨
    ∃ e ∈ spec.edges, ∃ src dest, bindings.resolve? e.src = some src ∧
      bindings.resolve? e.dest = some dest ∧ edge = e.bound bindings id src dest

theorem insertSubgraph_added {g : Graph} (sound : g.Sound) (spec : SubgraphSpec)
    (spared : SparesLast (g.insertSubgraph spec).1.addedNodes (g.insertSubgraph spec).1.addedEdges) :
    SubgraphAdded g (g.addNodes spec.nodes).1 spec (g.insertSubgraph spec).2 := by
  have adds := insertSubgraph_adds sound spec spared
  have node (id : NodeId) : (g.insertSubgraph spec).2.hasNode id = true ↔
      id ∈ (g.addNodes spec.nodes).1.map Prod.snd ∨ g.hasNode id = true := by
    rw [adds.hasNode, addNodes_ids, or_comm]
  have present : (g.insertSubgraph spec).2.hasNode = (g.addNodes spec.nodes).2.hasNode :=
    addEdgeSpecs_hasNode _ _ spec.edges
  constructor
  · exact node
  · intro id edge found
    exact adds.found_edge.mpr (.inl found)
  · intro e src dest member hsrc hdest srcPresent destPresent
    rw [present] at srcPresent destPresent
    have ends := ends?_eq_some_iff.mpr ⟨hsrc, hdest, srcPresent, destPresent⟩
    obtain ⟨id, placed⟩ := exists_mem_placeEdges ends member g.ids.nextEdge
    exact ⟨id, adds.new_edge placed⟩
  · intro id edge found
    refine (adds.found_edge.mp found).imp_right ?_
    rintro ⟨placed, rfl⟩
    obtain ⟨e, member, src, dest, ends, made⟩ := mem_placeEdges placed
    obtain ⟨hsrc, hdest, _, _⟩ := ends?_eq_some_iff.mp ends
    exact ⟨e, member, src, dest, hsrc, hdest, made⟩

end Graph

end GraphGrammar
