import GraphGrammar.Proofs.Graph.History
import GraphGrammar.Proofs.Graph.Placement

/-!
What a step reports is what it changes. On a well-formed graph a candidate always fits: the entity of its
site is there, and so the rule does what its kind says. The report tells the two graphs apart completely:
which ids are gone, which are new and which record was written. Everything else is as it was.
-/

namespace GraphGrammar

namespace Graph

theorem WellFormed.sound {g : Graph} (wellFormed : g.WellFormed) : g.Sound where
  node_counted present := Allocator.successor_le_of_lt (wellFormed.node_below present)
  edge_counted present := Allocator.successor_le_of_lt (wellFormed.edge_below present)

/-- The second graph differs from the first one in what a change lists, and in nothing else but the
label of the entity that was updated. -/
structure Differs (g : Graph) (change : Applied) (h : Graph) : Prop where
  hasNode : ∀ id, h.hasNode id = true ↔ g.hasNode id = true ∨ id ∈ change.addedNodes
  hasEdge : ∀ id, h.hasEdge id = true ↔
    g.hasEdge id = true ∧ change.removedEdge ≠ some id ∨ id ∈ change.addedEdges
  node : ∀ {id node}, g.node? id = some node → change.updatedNode ≠ some id →
    h.node? id = some node
  edge : ∀ {id edge}, g.edge? id = some edge → change.updatedEdge ≠ some id →
    change.removedEdge ≠ some id → h.edge? id = some edge
  issued : g.ids.Issues change.addedNodes change.addedEdges h.ids

/-- A change is one that a rule of the given kind makes: it names one entity, which was there and matched,
and what was written or how much was added follows from the rule. -/
def Fits (g : Graph) (change : Applied) (h : Graph) : RuleKind → Prop
  | .node condition update => ∃ id node, g.node? id = some node ∧ condition.accepts node g = true ∧
    change = { updatedNode := some id } ∧
    h.node? id = some { node with label := update.run node.label }
  | .edge pattern update => ∃ id edge src dest, g.edge? id = some edge ∧
    g.node? edge.src = some src ∧ g.node? edge.dest = some dest ∧
    pattern.accepts src dest edge g = true ∧ change = { updatedEdge := some id } ∧
    h.edge? id = some { edge with label := update.run edge.label }
  | .graph pattern build => ∃ id edge src dest, g.edge? id = some edge ∧
    g.node? edge.src = some src ∧ g.node? edge.dest = some dest ∧
    pattern.accepts src dest edge g = true ∧
    (change.updatedNode = none ∧ change.updatedEdge = none ∧ change.removedEdge = some id) ∧
    let built := build ⟨src, dest, edge⟩
    change.addedNodes.length = built.elim 0 (fun spec => spec.nodes.length) ∧
    change.addedEdges.length + change.droppedEdges = built.elim 0 (fun spec => spec.edges.length)
  | .unrecognized _ => False

variable {g h : Graph}

theorem differs_modifyNodeLabel (g : Graph) (id : NodeId) (f : Label → Label) :
    g.Differs { updatedNode := some id } (g.modifyNodeLabel id f) := by
  constructor
  · simp [hasNode_modifyNodeLabel]
  · intro k
    have same : (g.modifyNodeLabel id f).hasEdge k = g.hasEdge k := rfl
    simp [same]
  · intro k node found other
    have apart : id ≠ k := fun same => other (congrArg some same)
    rw [node?_modifyNodeLabel, if_neg apart]
    exact found
  · intro k edge found _ _
    exact found
  · exact .refl g.ids

theorem differs_modifyEdgeLabel (g : Graph) (id : EdgeId) (f : Label → Label) :
    g.Differs { updatedEdge := some id } (g.modifyEdgeLabel id f) := by
  constructor
  · intro k
    have same : (g.modifyEdgeLabel id f).hasNode k = g.hasNode k := rfl
    simp [same]
  · simp [hasEdge_modifyEdgeLabel]
  · intro k node found _
    exact found
  · intro k edge found other _
    have apart : id ≠ k := fun same => other (congrArg some same)
    rw [edge?_modifyEdgeLabel, if_neg apart]
    exact found
  · exact .refl g.ids

theorem Adds.differs {nodes : List Node} {edges : List Edge} {id : EdgeId} {change : Applied}
    (adds : Adds (g.eraseEdge id) nodes edges h) (addedNodes : change.addedNodes = nodes.map Node.id)
    (addedEdges : change.addedEdges = edges.map Edge.id) (removed : change.removedEdge = some id)
    (issued : g.ids.Issues change.addedNodes change.addedEdges h.ids) : g.Differs change h := by
  constructor
  · intro k
    have same : (g.eraseEdge id).hasNode k = g.hasNode k := rfl
    rw [adds.hasNode, same, addedNodes]
  · intro k
    rw [adds.hasEdge, hasEdge_eraseEdge, addedEdges, removed, ne_comm, and_comm, ne_eq, ne_eq,
      Option.some.injEq]
  · intro k node found _
    exact adds.found_node.mpr (.inl found)
  · intro k edge found _ other
    have apart : id ≠ k := fun same => other (removed.trans (congrArg some same))
    refine adds.found_edge.mpr (.inl ?_)
    rw [edge?_eraseEdge, if_neg apart]
    exact found
  · exact issued

theorem replaceEdge_differs (sound : g.Sound) {build : MatchedEdge → Option SubgraphSpec} {edge : Edge}
    {src dest : Node} (found : g.edge? edge.id = some edge) (hsrc : g.node? edge.src = some src)
    (hdest : g.node? edge.dest = some dest)
    (spared : SparesLast (g.replaceEdge build edge.id edge.src edge.dest).1.addedNodes
      (g.replaceEdge build edge.id edge.src edge.dest).1.addedEdges) :
    let change := (g.replaceEdge build edge.id edge.src edge.dest).1
    g.Differs change (g.replaceEdge build edge.id edge.src edge.dest).2 ∧
      (change.updatedNode = none ∧ change.updatedEdge = none ∧ change.removedEdge = some edge.id) ∧
      change.addedNodes.length =
        (build ⟨src, dest, edge⟩).elim 0 (fun spec => spec.nodes.length) ∧
      change.addedEdges.length + change.droppedEdges =
        (build ⟨src, dest, edge⟩).elim 0 (fun spec => spec.edges.length) := by
  simp only [replaceEdge, found, hsrc, hdest] at spared ⊢
  -- Without a description the edge is gone all the same.
  cases built : build ⟨src, dest, edge⟩ with
  | none =>
    have nothing : Adds (g.eraseEdge edge.id) [] [] (g.eraseEdge edge.id) := .refl _
    exact ⟨nothing.differs rfl rfl rfl (.refl g.ids), by simp⟩
  | some spec =>
    simp only [built] at spared ⊢
    have adds := insertSubgraph_adds (sound.eraseEdge edge.id) spec spared
    have issued := insertSubgraph_issues (g.eraseEdge edge.id) spec spared
    obtain ⟨addedNodes, addedEdges⟩ := insertSubgraph_ids (g.eraseEdge edge.id) spec
    have unnamed : (insertSubgraph (g.eraseEdge edge.id) spec).1.updatedNode = none ∧
        (insertSubgraph (g.eraseEdge edge.id) spec).1.updatedEdge = none := ⟨rfl, rfl⟩
    exact ⟨adds.differs addedNodes addedEdges rfl issued, by simp [unnamed],
      insertSubgraph_counts (g.eraseEdge edge.id) spec⟩

/-- A rule at a site where it matches does what its kind says, and reports it. -/
theorem applyAt_differs (sound : g.Sound) {kind : RuleKind} {site : Site} (listed : site ∈ g.sites kind)
    (spared : SparesLast (g.applyAt kind site).1.addedNodes (g.applyAt kind site).1.addedEdges) :
    g.Fits (g.applyAt kind site).1 (g.applyAt kind site).2 kind ∧
      g.Differs (g.applyAt kind site).1 (g.applyAt kind site).2 := by
  cases kind with
  | node condition update =>
    obtain ⟨id, node, found, accepted, rfl⟩ := mem_sites_node.mp listed
    have here := node_id found
    subst here
    simp only [applyAt, hasNode_of_node? found, if_true]
    refine ⟨⟨node.id, node, found, accepted, rfl, ?_⟩, differs_modifyNodeLabel ..⟩
    simp [node?_modifyNodeLabel, found]
  | edge pattern update =>
    obtain ⟨id, edge, src, dest, found, hsrc, hdest, accepted, rfl⟩ := mem_matchingEdges.mp listed
    have here := edge_id found
    subst here
    simp only [applyAt, hasEdge_of_edge? found, if_true]
    refine ⟨⟨edge.id, edge, src, dest, found, hsrc, hdest, accepted, rfl, ?_⟩,
      differs_modifyEdgeLabel ..⟩
    simp [edge?_modifyEdgeLabel, found]
  | graph pattern build =>
    obtain ⟨id, edge, src, dest, found, hsrc, hdest, accepted, rfl⟩ := mem_matchingEdges.mp listed
    have here := edge_id found
    subst here
    obtain ⟨differs, named, counts⟩ := replaceEdge_differs sound found hsrc hdest spared
    exact ⟨⟨edge.id, edge, src, dest, found, hsrc, hdest, accepted, named, counts⟩, differs⟩
  | unrecognized name => cases listed

end Graph

namespace RunState

open GraphGrammar.Graph (SparesLast)

/-- A step on a well-formed graph applies a rule that matched, and its report is exactly the difference
between the graphs before and after it. The ids must not run out in the step. -/
theorem step_differs {grammar : Grammar} {s t : RunState} {rule : String} {tier candidates : Nat}
    {change : Applied} (wellFormed : s.graph.WellFormed)
    (applied : s.step grammar = (.applied rule tier candidates change, t))
    (spared : SparesLast change.addedNodes change.addedEdges) :
    (∃ set c, s.graph.candidates? grammar = some set ∧ c ∈ set.candidates ∧ rule = c.rule.name ∧
      tier = set.tier ∧ candidates = set.candidates.length ∧
      s.graph.Fits change t.graph c.rule.kind) ∧
    s.graph.Differs change t.graph := by
  rcases step_cases grammar s with ⟨stopped, _⟩ | ⟨set, c, found, listed, outcome, graph⟩
  · rw [applied] at stopped
    cases stopped
  · rw [applied] at outcome graph
    cases outcome
    obtain ⟨tier, _, _, site⟩ := Graph.mem_candidates? found listed
    obtain ⟨fits, differs⟩ := Graph.applyAt_differs wellFormed.sound site spared
    rw [← Graph.apply, ← graph] at fits differs
    exact ⟨⟨set, c, found, listed, rfl, rfl, rfl, fits⟩, differs⟩

/-- An edge gives way to a node with an edge to it, while an edge to a missing node is dropped. -/
theorem step_differs_with_dropped_edge :
    let effect := Graph.history ∅ [.addNode ∅, .addNode ∅, .addEdge ⟨0⟩ ⟨1⟩ ∅ none]
    let build : MatchedEdge → Option SubgraphSpec := fun m => some ⟨[⟨"a", ∅⟩],
      [⟨.node m.src.id, .placeholder "a", ∅, none⟩, ⟨.placeholder "a", .node ⟨9⟩, ∅, none⟩]⟩
    let grammar : Grammar := ⟨[⟨"first", []⟩, ⟨"second", [⟨"split", 1, .graph {} build⟩]⟩]⟩
    let s : RunState := ⟨effect.graph, .ofSeed 7⟩
    let change : Applied :=
      { removedEdge := some ⟨0⟩, addedNodes := [⟨2⟩], addedEdges := [⟨1⟩], droppedEdges := 1 }
    s.graph.WellFormed ∧
      s.step grammar = (.applied "split" 1 1 change, (s.step grammar).2) ∧
      SparesLast change.addedNodes change.addedEdges ∧
      s.graph.Differs change (s.step grammar).2.graph := by
  intro effect build grammar s change
  have development := Graph.history_development ∅
    [.addNode ∅, .addNode ∅, .addEdge ⟨0⟩ ⟨1⟩ ∅ none]
  have sound := development.sound (by decide +kernel) Graph.sound_empty
  have wellFormed : s.graph.WellFormed := sound.wellFormed (by decide +kernel)
  have applied : s.step grammar = (.applied "split" 1 1 change, (s.step grammar).2) :=
    Prod.ext (by decide +kernel) rfl
  have spared : SparesLast change.addedNodes change.addedEdges := by decide +kernel
  exact ⟨wellFormed, applied, spared, (step_differs wellFormed applied spared).2⟩

end RunState

end GraphGrammar
