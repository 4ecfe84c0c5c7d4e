import GraphGrammar.Proofs.Graph.Document
import GraphGrammar.Proofs.Graph.History
import GraphGrammar.Proofs.Id.Ledger

/-!
Chronicles: all ids that ever entered a graph, in order, those of erased edges included, over any
operations and any number of times that the graph is stored and loaded again. Each counter has a ledger
of its own. So no id is given out twice, and what happens to the ids of one kind does not touch the other.
-/

namespace GraphGrammar

/-- What can be done to a graph, among it to store it as a document and to load this document. -/
inductive Action where
  | operate (operation : Operation)
  | reload

structure Chronicle where
  nodes : List Entry
  edges : List Entry
  graph : Graph

def Operation.issues : Operation → Bool
  | insertNode _ | insertEdge _ => false
  | _ => true

namespace Graph

def act (g : Graph) : Action → Chronicle
  | .operate operation =>
    let effect := g.perform operation
    ⟨effect.nodes.map fun id => ⟨operation.issues, id.index⟩,
      effect.edges.map fun id => ⟨operation.issues, id.index⟩, effect.graph⟩
  | .reload =>
    match (GraphDocument.ofGraph g).load with
    | .ok h => ⟨Entry.observed (g.nodes.map (·.id.index)), Entry.observed (g.edges.map (·.id.index)), h⟩
    | .error _ => ⟨[], [], g⟩

def chronicle (g : Graph) : List Action → Chronicle
  | [] => ⟨[], [], g⟩
  | action :: rest =>
    let now := g.act action
    let later := chronicle now.graph rest
    ⟨now.nodes ++ later.nodes, now.edges ++ later.edges, later.graph⟩

/-- A graph to which nothing was done yet, with the ids that it begins with: the empty graph, or one that
was loaded. The counters of the document may be anything. -/
inductive Begins : List NodeId → List EdgeId → Graph → Prop where
  | empty : Begins [] [] ∅
  | loaded {d : GraphDocument} {g : Graph} (loaded : d.load = .ok g) :
    Begins (d.nodes.map Node.id) (d.edges.map Edge.id) g

end Graph

namespace RunState

open GraphGrammar.Graph (SparesLast)

theorem step_issues (grammar : Grammar) (s : RunState)
    (spared : SparesLast (s.step grammar).1.change.addedNodes (s.step grammar).1.change.addedEdges) :
    s.graph.ids.Issues (s.step grammar).1.change.addedNodes (s.step grammar).1.change.addedEdges
      (s.step grammar).2.graph.ids := by
  rcases step_cases grammar s with ⟨outcome, same⟩ | ⟨set, c, _, _, outcome, graph⟩
  · rw [outcome, same]
    exact .refl _
  · rw [outcome] at spared ⊢
    rw [graph]
    exact Graph.applyAt_issues s.graph c.rule.kind c.site spared

theorem run_issues (grammar : Grammar) (budget : Nat) (s : RunState)
    (spared : SparesLast (Applied.nodes (changes grammar budget s))
      (Applied.edges (changes grammar budget s))) :
    s.graph.ids.Issues (Applied.nodes (changes grammar budget s))
      (Applied.edges (changes grammar budget s)) (run grammar budget s).2.graph.ids := by
  revert spared
  refine runAfter_induction grammar (I := fun changes s t =>
    SparesLast (Applied.nodes changes) (Applied.edges changes) →
      s.graph.ids.Issues (Applied.nodes changes) (Applied.edges changes) t.graph.ids) ?_ ?_ ?_ 0 budget s
  · intro s _
    exact .refl s.graph.ids
  · intro s outcome spared
    have once := step_issues grammar s
    rw [outcome] at once
    exact once spared
  · intro s changes t rest spared
    obtain ⟨now, later⟩ := Graph.sparesLast_append.mp spared
    exact (step_issues grammar s now).trans (rest later)

end RunState

namespace Graph

theorem perform_issues (g : Graph) {operation : Operation} (issues : operation.issues = true)
    (spared : SparesLast (g.perform operation).nodes (g.perform operation).edges) :
    g.ids.Issues (g.perform operation).nodes (g.perform operation).edges
      (g.perform operation).graph.ids := by
  cases operation with
  | addNode label => exact .takeNode fun last => spared.1 (last ▸ .head _)
  | addEdge src dest label prereq =>
    simp only [perform] at spared ⊢
    split at spared
    · next id h added =>
      obtain ⟨rfl, _, rfl⟩ := addEdge_eq_ok added
      exact .takeEdge fun last => spared.2 (last ▸ .head _)
    · exact .refl g.ids
  | insertNode | insertEdge => cases issues
  | eraseEdge | writeNodeLabel | writeEdgeLabel | writePrereq => exact .refl g.ids
  | apply c => exact applyAt_issues g c.rule.kind c.site spared
  | insertSubgraph spec => exact insertSubgraph_issues g spec spared
  | step grammar generator => exact RunState.step_issues grammar ⟨g, generator⟩ spared
  | run grammar generator budget => exact RunState.run_issues grammar budget ⟨g, generator⟩ spared

/-- What an action does to a sound graph: both counters move by the ids that enter. -/
structure Chronicled (g : Graph) (nodes edges : List Entry) (h : Graph) : Prop where
  sound : h.Sound
  node : Ledger g.ids.nextNode nodes h.ids.nextNode
  edge : Ledger g.ids.nextEdge edges h.ids.nextEdge

namespace Chronicled

variable {g h k : Graph} {nodes edges moreNodes moreEdges : List Entry}

theorem refl (sound : g.Sound) : Chronicled g [] [] g := ⟨sound, .nil _, .nil _⟩

theorem trans (first : Chronicled g nodes edges h) (rest : Chronicled h moreNodes moreEdges k) :
    Chronicled g (nodes ++ moreNodes) (edges ++ moreEdges) k :=
  ⟨rest.sound, first.node.append rest.node, first.edge.append rest.edge⟩

end Chronicled

variable {g : Graph}

theorem chronicled_insertNode (sound : g.Sound) (node : Node) :
    let now := g.act (.operate (.insertNode node))
    Chronicled g now.nodes now.edges now.graph := by
  simp only [act, perform]
  cases result : g.insertNode node with
  | error e => exact .refl sound
  | ok h =>
    obtain ⟨_, _, ids⟩ := insertNode_eq_ok result
    refine ⟨sound.insertNode result, ?_, ?_⟩
    · simp only [ids]
      exact .observe (.nil _)
    · simp only [ids]
      exact .nil _

theorem chronicled_insertEdge (sound : g.Sound) (edge : Edge) :
    let now := g.act (.operate (.insertEdge edge))
    Chronicled g now.nodes now.edges now.graph := by
  simp only [act, perform]
  cases result : g.insertEdge edge with
  | error e => exact .refl sound
  | ok h =>
    obtain ⟨_, _, same⟩ := insertEdge_eq_ok_iff.mp result
    have ids : h.ids = g.ids.observeEdge edge.id := congrArg Graph.ids same
    refine ⟨sound.insertEdge result, ?_, ?_⟩
    · simp only [ids]
      exact .nil _
    · simp only [ids]
      exact .observe (.nil _)

theorem chronicled_issues (sound : g.Sound) {operation : Operation} (issues : operation.issues = true)
    (node : Entry.SpareLast (g.act (.operate operation)).nodes)
    (edge : Entry.SpareLast (g.act (.operate operation)).edges) :
    let now := g.act (.operate operation)
    Chronicled g now.nodes now.edges now.graph := by
  simp only [act, issues] at node edge ⊢
  have spared : SparesLast (g.perform operation).nodes (g.perform operation).edges :=
    ⟨fun member => node _ (List.mem_map_of_mem member) rfl rfl,
      fun member => edge _ (List.mem_map_of_mem member) rfl rfl⟩
  have issued := g.perform_issues issues spared
  exact ⟨(g.perform_development operation).sound spared sound, issued.nodeLedger spared.1,
    issued.edgeLedger spared.2⟩

theorem chronicled_reload (sound : g.Sound) :
    let now := g.act .reload
    Chronicled g now.nodes now.edges now.graph := by
  simp only [act, sound.load_ofGraph]
  refine ⟨sound, .of_counted ?_, .of_counted ?_⟩
  · intro i member
    obtain ⟨node, listed, rfl⟩ := List.mem_map.mp member
    exact sound.node_counted (hasNode_of_node? (node?_of_mem listed))
  · intro i member
    obtain ⟨edge, listed, rfl⟩ := List.mem_map.mp member
    exact sound.edge_counted (hasEdge_of_edge? (edge?_of_mem listed))

theorem chronicled_act (sound : g.Sound) (action : Action) (node : Entry.SpareLast (g.act action).nodes)
    (edge : Entry.SpareLast (g.act action).edges) :
    Chronicled g (g.act action).nodes (g.act action).edges (g.act action).graph := by
  cases action with
  | reload => exact chronicled_reload sound
  | operate operation =>
    -- Inserted records bring their ids along, all other operations take them from the counters.
    cases issues : operation.issues with
    | true => exact chronicled_issues sound issues node edge
    | false =>
      cases operation with
      | insertNode inserted => exact chronicled_insertNode sound inserted
      | insertEdge inserted => exact chronicled_insertEdge sound inserted
      | _ => cases issues

theorem chronicled (sound : g.Sound) (actions : List Action)
    (node : Entry.SpareLast (g.chronicle actions).nodes)
    (edge : Entry.SpareLast (g.chronicle actions).edges) :
    Chronicled g (g.chronicle actions).nodes (g.chronicle actions).edges (g.chronicle actions).graph := by
  induction actions generalizing g with
  | nil => exact .refl sound
  | cons action rest ih =>
    obtain ⟨nodeNow, nodeLater⟩ := Entry.spareLast_append.mp node
    obtain ⟨edgeNow, edgeLater⟩ := Entry.spareLast_append.mp edge
    have first := chronicled_act sound action nodeNow edgeNow
    exact first.trans (ih first.sound nodeLater edgeLater)

theorem chronicle_append (g : Graph) (earlier later : List Action) :
    let before := g.chronicle earlier
    let after := before.graph.chronicle later
    g.chronicle (earlier ++ later) =
      ⟨before.nodes ++ after.nodes, before.edges ++ after.edges, after.graph⟩ := by
  induction earlier generalizing g with
  | nil => rfl
  | cons action rest ih =>
    simp only [List.cons_append, chronicle, ih, List.append_assoc]

/-- Operations alone have the chronicle of their history, which tells in addition where the ids come from. -/
theorem chronicle_operate (g : Graph) (operations : List Operation) :
    let all := g.chronicle (operations.map .operate)
    let history := g.history operations
    all.graph = history.graph ∧ all.edges.map Entry.index = history.edges.map EdgeId.index := by
  induction operations generalizing g with
  | nil => exact ⟨rfl, rfl⟩
  | cons operation rest ih =>
    obtain ⟨graph, edges⟩ := ih (g.perform operation).graph
    refine ⟨graph, ?_⟩
    simp only [List.map_cons, chronicle, history, act, List.map_append, List.map_map, edges]
    rfl

theorem Begins.sound {nodes : List NodeId} {edges : List EdgeId} (begins : Begins nodes edges g) :
    g.Sound := by
  cases begins with
  | empty => exact sound_empty
  | loaded loaded => exact load_sound loaded

theorem Begins.ledgers {nodes : List NodeId} {edges : List EdgeId} (begins : Begins nodes edges g) :
    Ledger g.ids.nextNode (Entry.observed (nodes.map NodeId.index)) g.ids.nextNode ∧
      Ledger g.ids.nextEdge (Entry.observed (edges.map EdgeId.index)) g.ids.nextEdge := by
  have sound := begins.sound
  cases begins with
  | empty => exact ⟨.nil _, .nil _⟩
  | loaded loaded =>
    obtain ⟨hasNodes, hasEdges⟩ := has_of_load loaded
    constructor
    · apply Ledger.of_counted
      simp only [List.forall_mem_map]
      exact fun n listed => sound.node_counted (hasNodes n listed)
    · apply Ledger.of_counted
      simp only [List.forall_mem_map]
      exact fun e listed => sound.edge_counted (hasEdges e listed)

/-- Every id that is given out is greater than all ids of its kind that were given out, inserted or loaded
before, also those of edges that are gone. From any moment to any later one the counters do not decrease,
and each of them moves by the ids of its own kind alone. This holds from the empty graph on and from any
document that loads, whatever its counters are, as long as no counter gives out its greatest id. -/
theorem ids_never_reissued {nodes : List NodeId} {edges : List EdgeId} (begins : Begins nodes edges g)
    (actions : List Action) (node : Entry.SpareLast (g.chronicle actions).nodes)
    (edge : Entry.SpareLast (g.chronicle actions).edges) :
    let all := g.chronicle actions
    Entry.Ascending (Entry.observed (nodes.map NodeId.index) ++ all.nodes) ∧
      Entry.Ascending (Entry.observed (edges.map EdgeId.index) ++ all.edges) ∧
      ∀ earlier later, actions = earlier ++ later →
        let before := (g.chronicle earlier).graph
        let between := before.chronicle later
        between.graph = all.graph ∧
          before.ids.nextNode ≤ all.graph.ids.nextNode ∧ before.ids.nextEdge ≤ all.graph.ids.nextEdge ∧
          all.graph.ids.nextNode = between.nodes.foldl Entry.advance before.ids.nextNode ∧
          all.graph.ids.nextEdge = between.edges.foldl Entry.advance before.ids.nextEdge := by
  intro all
  have sound := begins.sound
  obtain ⟨nodeStart, edgeStart⟩ := begins.ledgers
  have whole := chronicled sound actions node edge
  refine ⟨(nodeStart.append whole.node).ascending, (edgeStart.append whole.edge).ascending, ?_⟩
  rintro earlier later rfl before between
  have split := g.chronicle_append earlier later
  have last := congrArg Chronicle.graph split
  change all.graph = between.graph at last
  -- The later part begins where the earlier one leaves a sound graph, so it has ledgers of its own.
  rw [split] at node edge
  obtain ⟨nodeBefore, nodeLater⟩ := Entry.spareLast_append.mp node
  obtain ⟨edgeBefore, edgeLater⟩ := Entry.spareLast_append.mp edge
  have first := chronicled sound earlier nodeBefore edgeBefore
  have rest := chronicled first.sound later nodeLater edgeLater
  rw [last]
  exact ⟨rfl, rest.node.le, rest.edge.le, rest.node.foldl_advance.symm, rest.edge.foldl_advance.symm⟩

/-- A document with low counters, an edge that is erased before the graph is stored and loaded, and a
node that is inserted under an id of its own. -/
theorem ids_never_reissued_after_low_counters :
    let d : GraphDocument := ⟨[⟨⟨4⟩, ∅⟩, ⟨⟨7⟩, ∅⟩], [⟨⟨9⟩, ⟨4⟩, ⟨7⟩, ∅, none⟩], 2, 0⟩
    let actions : List Action := [.operate (.addNode ∅), .operate (.addEdge ⟨4⟩ ⟨8⟩ ∅ none),
      .operate (.eraseEdge ⟨10⟩), .reload, .operate (.insertNode ⟨⟨20⟩, ∅⟩),
      .operate (.insertSubgraph ⟨[⟨"a", ∅⟩], [⟨.node ⟨4⟩, .placeholder "a", ∅, none⟩]⟩)]
    ∃ g, d.load = .ok g ∧
      ((g.chronicle actions).nodes =
        [⟨true, 8⟩, ⟨false, 4⟩, ⟨false, 7⟩, ⟨false, 8⟩, ⟨false, 20⟩, ⟨true, 21⟩] ∧
      (g.chronicle actions).edges = [⟨true, 10⟩, ⟨false, 9⟩, ⟨true, 11⟩]) ∧
      Entry.Ascending (Entry.observed [4, 7] ++ (g.chronicle actions).nodes) ∧
      Entry.Ascending (Entry.observed [9] ++ (g.chronicle actions).edges) := by
  intro d actions
  have loaded : d.load = .ok (d.load.toOption.getD ∅) := by rfl
  have entries : ((d.load.toOption.getD ∅).chronicle actions).nodes =
        [⟨true, 8⟩, ⟨false, 4⟩, ⟨false, 7⟩, ⟨false, 8⟩, ⟨false, 20⟩, ⟨true, 21⟩] ∧
      ((d.load.toOption.getD ∅).chronicle actions).edges = [⟨true, 10⟩, ⟨false, 9⟩, ⟨true, 11⟩] := by
    decide +kernel
  have node : Entry.SpareLast ((d.load.toOption.getD ∅).chronicle actions).nodes := by
    rw [entries.1]
    decide
  have edge : Entry.SpareLast ((d.load.toOption.getD ∅).chronicle actions).edges := by
    rw [entries.2]
    decide
  obtain ⟨nodes, edges, _⟩ := ids_never_reissued (.loaded loaded) actions node edge
  exact ⟨_, loaded, entries, nodes, edges⟩

end Graph

end GraphGrammar
