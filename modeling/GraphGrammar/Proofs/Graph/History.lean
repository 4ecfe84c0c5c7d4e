import GraphGrammar.Proofs.Engine.Development
import GraphGrammar.Proofs.Graph.Loading

/-!
Histories of a graph: any operations one after the other, refused ones included. A graph that was empty
or loaded at first stays well formed for as long as no id without a successor enters it.
-/

namespace GraphGrammar

/-- One operation on a graph. A rule may be applied at any site, be it forged or out of date. -/
inductive Operation where
  | addNode (label : Label)
  | addEdge (src dest : NodeId) (label : Label) (prereq : Option Label)
  | insertNode (node : Node)
  | insertEdge (edge : Edge)
  | eraseEdge (id : EdgeId)
  | writeNodeLabel (id : NodeId) (f : Label → Label)
  | writeEdgeLabel (id : EdgeId) (f : Label → Label)
  | writePrereq (id : EdgeId) (prereq : Option Label)
  | apply (c : Candidate)
  | insertSubgraph (spec : SubgraphSpec)
  | step (grammar : Grammar) (generator : Generator)
  | run (grammar : Grammar) (generator : Generator) (budget : Nat)

structure Effect where
  nodes : List NodeId
  edges : List EdgeId
  graph : Graph

namespace Graph

/-- An operation on a graph. A refused one has no effect. -/
def perform (g : Graph) : Operation → Effect
  | .addNode label => ⟨[(g.addNode label).1], [], (g.addNode label).2⟩
  | .addEdge src dest label prereq =>
    match g.addEdge src dest label prereq with
    | .ok (id, h) => ⟨[], [id], h⟩
    | .error _ => ⟨[], [], g⟩
  | .insertNode node =>
    match g.insertNode node with
    | .ok h => ⟨[node.id], [], h⟩
    | .error _ => ⟨[], [], g⟩
  | .insertEdge edge =>
    match g.insertEdge edge with
    | .ok h => ⟨[], [edge.id], h⟩
    | .error _ => ⟨[], [], g⟩
  | .eraseEdge id => ⟨[], [], g.eraseEdge id⟩
  | .writeNodeLabel id f => ⟨[], [], g.modifyNodeLabel id f⟩
  | .writeEdgeLabel id f => ⟨[], [], g.modifyEdgeLabel id f⟩
  | .writePrereq id prereq => ⟨[], [], g.setPrereq id prereq⟩
  | .apply c =>
    let (applied, h) := g.apply c
    ⟨applied.addedNodes, applied.addedEdges, h⟩
  | .insertSubgraph spec =>
    let (applied, h) := g.insertSubgraph spec
    ⟨applied.addedNodes, applied.addedEdges, h⟩
  | .step grammar generator =>
    let (outcome, s) := RunState.step grammar ⟨g, generator⟩
    ⟨outcome.change.addedNodes, outcome.change.addedEdges, s.graph⟩
  | .run grammar generator budget =>
    let changes := RunState.changes grammar budget ⟨g, generator⟩
    let (_, s) := RunState.run grammar budget ⟨g, generator⟩
    ⟨Applied.nodes changes, Applied.edges changes, s.graph⟩

def history (g : Graph) : List Operation → Effect
  | [] => ⟨[], [], g⟩
  | operation :: rest =>
    let now := g.perform operation
    let later := history now.graph rest
    ⟨now.nodes ++ later.nodes, now.edges ++ later.edges, later.graph⟩

theorem perform_development (g : Graph) (operation : Operation) :
    Development (fun _ => True) g (g.perform operation).nodes (g.perform operation).edges
      (g.perform operation).graph := by
  cases operation with
  | addNode label => exact .of_mutation (.addNode g trivial)
  | addEdge src dest label prereq =>
    simp only [perform]
    split
    · next added => exact .of_mutation (.addEdge trivial (fun _ _ => trivial) added)
    · exact .refl g
  | insertNode node =>
    simp only [perform]
    split
    · next inserted => exact .of_mutation (.insertNode trivial inserted)
    · exact .refl g
  | insertEdge edge =>
    simp only [perform]
    split
    · next inserted => exact .of_mutation (.insertEdge trivial (fun _ _ => trivial) inserted)
    · exact .refl g
  | eraseEdge id => exact .of_mutation (.eraseEdge g id)
  | writeNodeLabel id f => exact .of_mutation (.writeNodeLabel g id fun _ _ => trivial)
  | writeEdgeLabel id f => exact .of_mutation (.writeEdgeLabel g id fun _ _ => trivial)
  | writePrereq id prereq => exact .of_mutation (.writePrereq g id fun _ _ => trivial)
  | apply c => exact applyAt_development ignoresTexts_true (allowed_true g) c.rule.kind.keeps_true c.site
  | insertSubgraph spec =>
    exact insertSubgraph_development ignoresTexts_true g
      ⟨fun _ _ => trivial, fun _ _ => trivial, fun _ _ _ _ => trivial⟩
  | step grammar generator =>
    exact RunState.step_development (s := ⟨g, generator⟩) ignoresTexts_true grammar.keeps_true
      (allowed_true g)
  | run grammar generator budget =>
    exact RunState.run_development (s := ⟨g, generator⟩) ignoresTexts_true grammar.keeps_true budget
      (allowed_true g)

theorem history_development (g : Graph) (operations : List Operation) :
    Development (fun _ => True) g (g.history operations).nodes (g.history operations).edges
      (g.history operations).graph := by
  induction operations generalizing g with
  | nil => exact .refl g
  | cons operation rest ih => exact (perform_development g operation).trans (ih _)

/-- A graph to which nothing was done yet: the empty one, or one that was loaded. -/
inductive Origin : Graph → Prop where
  | empty : Origin ∅
  | loaded {d : GraphDocument} {g : Graph} (loaded : d.load = .ok g) : Origin g

theorem Origin.sound {g : Graph} (origin : Origin g) : g.Sound := by
  cases origin with
  | empty => exact sound_empty
  | loaded loaded => exact load_sound loaded

def LacksLast (g : Graph) : Prop := g.hasNode .last = false ∧ g.hasEdge .last = false

instance (g : Graph) : Decidable g.LacksLast := inferInstanceAs (Decidable (_ ∧ _))

/-- Records under their own ids, edges between nodes, and ids below the next ones. -/
structure WellFormed (g : Graph) : Prop where
  node_id : ∀ {id node}, g.node? id = some node → node.id = id
  edge_id : ∀ {id edge}, g.edge? id = some edge → edge.id = id
  ends : ∀ {id edge}, g.edge? id = some edge → g.hasNode edge.src ∧ g.hasNode edge.dest
  integrity : g.checkIntegrity = .ok ()
  node_below : ∀ {id}, g.hasNode id → id.index < g.ids.peekNode.index
  edge_below : ∀ {id}, g.hasEdge id → id.index < g.ids.peekEdge.index

theorem forM_eq_ok {α : Type} {check : α → Except GraphError Unit} {items : List α}
    (passed : ∀ a ∈ items, check a = .ok ()) : items.forM check = .ok () := by
  induction items with
  | nil => rfl
  | cons a rest ih =>
    have tail := ih fun b member => passed b (List.mem_cons_of_mem _ member)
    change (check a >>= fun _ => rest.forM check) = .ok ()
    rw [passed a List.mem_cons_self]
    exact tail

theorem checkIntegrity_eq_ok (g : Graph) : g.checkIntegrity = .ok () := by
  refine forM_eq_ok fun e listed => ?_
  obtain ⟨id, found⟩ := mem_edges_iff.mp listed
  rw [checkEndpoints_of_present _ (ends found)]
  rfl

theorem Sound.wellFormed {g : Graph} (sound : g.Sound) (lacks : g.LacksLast) : g.WellFormed where
  node_id := node_id
  edge_id := edge_id
  ends := ends
  integrity := g.checkIntegrity_eq_ok
  node_below {id} present := by
    refine Allocator.lt_of_successor_le (fun last => ?_) (sound.node_counted present)
    have same : id = .last := congrArg NodeId.mk last
    rw [same, lacks.1] at present
    cases present
  edge_below {id} present := by
    refine Allocator.lt_of_successor_le (fun last => ?_) (sound.edge_counted present)
    have same : id = .last := congrArg EdgeId.mk last
    rw [same, lacks.2] at present
    cases present

theorem Development.lacksLast {P : Label → Prop} {g h : Graph} {nodes : List NodeId}
    {edges : List EdgeId} (development : Development P g nodes edges h)
    (spared : SparesLast nodes edges) (lacks : g.LacksLast) : h.LacksLast := by
  constructor
  · apply Bool.eq_false_iff.mpr
    intro present
    rcases development.hasNode present with entered | old
    · exact spared.1 entered
    · exact Bool.eq_false_iff.mp lacks.1 old
  · apply Bool.eq_false_iff.mpr
    intro present
    rcases development.hasEdge present with entered | old
    · exact spared.2 entered
    · exact Bool.eq_false_iff.mp lacks.2 old

theorem Origin.wellFormed {g : Graph} (origin : Origin g) {operations : List Operation}
    (spared : SparesLast (g.history operations).nodes (g.history operations).edges)
    (lacks : (g.history operations).graph.LacksLast) : (g.history operations).graph.WellFormed :=
  ((g.history_development operations).sound spared origin.sound).wellFormed lacks

/-- A history from the empty graph or a loaded one leaves a well-formed graph, as long as the ids
without a successor are neither loaded nor given out nor inserted. -/
theorem history_wellFormed {g : Graph} (origin : Origin g) (lacks : g.LacksLast)
    (operations : List Operation)
    (spared : SparesLast (g.history operations).nodes (g.history operations).edges) :
    (g.history operations).graph.WellFormed := by
  have development := g.history_development operations
  have sound := development.sound spared origin.sound
  exact sound.wellFormed (development.lacksLast spared lacks)

/-- Two nodes, an edge that is erased again, a refused edge and an inserted node. -/
theorem history_wellFormed_after_refusal :
    let operations := [.addNode ∅, .addNode ∅, .addEdge ⟨0⟩ ⟨1⟩ ∅ none, .eraseEdge ⟨0⟩,
      .addEdge ⟨0⟩ ⟨7⟩ ∅ none, .insertNode ⟨⟨7⟩, ∅⟩, .insertSubgraph ⟨[⟨"a", ∅⟩], []⟩]
    let effect := history ∅ operations
    effect.nodes = [⟨0⟩, ⟨1⟩, ⟨7⟩, ⟨8⟩] ∧ effect.edges = [⟨0⟩] ∧ effect.graph.WellFormed :=
  ⟨by decide +kernel, by decide +kernel,
    history_wellFormed .empty (by decide +kernel) _ (by decide +kernel)⟩

end Graph

end GraphGrammar
