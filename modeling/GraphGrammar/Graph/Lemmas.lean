import GraphGrammar.Graph.Basic

/-!
What is found in a graph, what the operations do to the node and to the edge at each id, and when an
operation is refused. Nodes and edges that an operation does not name stay as they are.
-/

namespace GraphGrammar.Graph

theorem hasNode_eq (g : Graph) (id : NodeId) : g.hasNode id = (g.node? id).isSome :=
  Std.ExtTreeMap.contains_eq_isSome_getElem?

theorem hasEdge_eq (g : Graph) (id : EdgeId) : g.hasEdge id = (g.edge? id).isSome :=
  Std.ExtTreeMap.contains_eq_isSome_getElem?

theorem node?_empty (id : NodeId) : (∅ : Graph).node? id = none :=
  Std.ExtTreeMap.getElem?_empty

theorem edge?_empty (id : EdgeId) : (∅ : Graph).edge? id = none :=
  Std.ExtTreeMap.getElem?_empty

theorem hasNode_of_node? {g : Graph} {id : NodeId} {node : Node} (found : g.node? id = some node) :
    g.hasNode id = true := by
  rw [hasNode_eq, found]
  rfl

theorem exists_node_of_hasNode {g : Graph} {id : NodeId} (present : g.hasNode id = true) :
    ∃ node, g.node? id = some node := by
  rw [hasNode_eq] at present
  exact Option.isSome_iff_exists.mp present

theorem hasEdge_of_edge? {g : Graph} {id : EdgeId} {edge : Edge} (found : g.edge? id = some edge) :
    g.hasEdge id = true := by
  rw [hasEdge_eq, found]
  rfl

theorem exists_edge_of_hasEdge {g : Graph} {id : EdgeId} (present : g.hasEdge id = true) :
    ∃ edge, g.edge? id = some edge := by
  rw [hasEdge_eq] at present
  exact Option.isSome_iff_exists.mp present

theorem node_id {g : Graph} {id : NodeId} {node : Node} (found : g.node? id = some node) :
    node.id = id :=
  g.closed.node_id found

theorem edge_id {g : Graph} {id : EdgeId} {edge : Edge} (found : g.edge? id = some edge) :
    edge.id = id :=
  g.closed.edge_id found

theorem ends {g : Graph} {id : EdgeId} {edge : Edge} (found : g.edge? id = some edge) :
    g.hasNode edge.src = true ∧ g.hasNode edge.dest = true :=
  g.closed.ends found

/-! ## Nodes -/

theorem node?_addNode (g : Graph) (label : Label) (id : NodeId) :
    (g.addNode label).2.node? id =
      if g.ids.peekNode = id then some ⟨g.ids.peekNode, label⟩ else g.node? id := by
  simp only [addNode, Allocator.takeNode, node?, Std.ExtTreeMap.getElem?_insert,
    Std.compare_eq_iff_eq]

theorem edge?_addNode (g : Graph) (label : Label) (id : EdgeId) :
    (g.addNode label).2.edge? id = g.edge? id := rfl

theorem insertNode_eq_error_iff {g : Graph} {node : Node} {e : GraphError} :
    g.insertNode node = .error e ↔ g.hasNode node.id ∧ e = .duplicateNode node.id := by
  unfold insertNode
  split
  · next taken => simp [taken, eq_comm]
  · next free => simp [free]

theorem node?_insertNode {g h : Graph} {node : Node} (inserted : g.insertNode node = .ok h)
    (id : NodeId) : h.node? id = if node.id = id then some node else g.node? id := by
  unfold insertNode at inserted
  split at inserted
  · cases inserted
  · cases inserted
    simp only [node?, Std.ExtTreeMap.getElem?_insert, Std.compare_eq_iff_eq]

theorem edge?_insertNode {g h : Graph} {node : Node} (inserted : g.insertNode node = .ok h)
    (id : EdgeId) : h.edge? id = g.edge? id := by
  unfold insertNode at inserted
  split at inserted
  · cases inserted
  · cases inserted
    rfl

theorem insertNode_eq_ok {g h : Graph} {node : Node} (inserted : g.insertNode node = .ok h) :
    g.hasNode node.id = false ∧ h.edgeMap = g.edgeMap ∧ h.ids = g.ids.observeNode node.id := by
  unfold insertNode at inserted
  split at inserted
  · cases inserted
  · next free =>
    cases inserted
    exact ⟨by simpa using free, rfl, rfl⟩

theorem node?_modifyNodeLabel (g : Graph) (id k : NodeId) (f : Label → Label) :
    (g.modifyNodeLabel id f).node? k =
      if id = k then (g.node? k).map fun n => { n with label := f n.label } else g.node? k := by
  simp only [modifyNodeLabel, node?, Std.ExtTreeMap.getElem?_modify, Std.compare_eq_iff_eq]
  split
  · next same => rw [same]
  · rfl

/-! ## Edges -/

theorem checkEndpoints_of_present {g : Graph} {src dest : NodeId} (edge : EdgeId)
    (present : g.hasNode src = true ∧ g.hasNode dest = true) :
    g.checkEndpoints edge src dest = .ok ⟨present⟩ := by
  rw [checkEndpoints, dif_pos present.1, dif_pos present.2]

theorem addEdge_of_present {g : Graph} {src dest : NodeId} (label : Label) (prereq : Option Label)
    (present : g.hasNode src = true ∧ g.hasNode dest = true) :
    g.addEdge src dest label prereq = .ok (g.ids.peekEdge,
      g.putEdge ⟨g.ids.peekEdge, src, dest, label, prereq⟩ g.ids.takeEdge.2 present) := by
  rw [addEdge, checkEndpoints_of_present _ present]
  rfl

theorem addEdge_of_absent {g : Graph} {src dest : NodeId} {label : Label} {prereq : Option Label}
    (absent : ¬(g.hasNode src = true ∧ g.hasNode dest = true)) :
    g.addEdge src dest label prereq = .error
      (.danglingEndpoint g.ids.peekEdge (if g.hasNode src = true then dest else src)) := by
  by_cases hsrc : g.hasNode src = true
  · have hdest : ¬g.hasNode dest = true := fun hdest => absent ⟨hsrc, hdest⟩
    rw [addEdge, checkEndpoints, dif_pos hsrc, dif_neg hdest, if_pos hsrc]
    rfl
  · rw [addEdge, checkEndpoints, dif_neg hsrc, if_neg hsrc]
    rfl

theorem addEdge_eq_ok {g h : Graph} {src dest : NodeId} {label : Label} {prereq : Option Label}
    {id : EdgeId} (added : g.addEdge src dest label prereq = .ok (id, h)) :
    id = g.ids.peekEdge ∧ ∃ present : g.hasNode src = true ∧ g.hasNode dest = true,
      h = g.putEdge ⟨id, src, dest, label, prereq⟩ g.ids.takeEdge.2 present := by
  unfold addEdge at added
  cases ends : g.checkEndpoints g.ids.peekEdge src dest with
  | error e => rw [ends] at added; cases added
  | ok present =>
    rw [ends] at added
    cases added
    exact ⟨rfl, present.down, rfl⟩

theorem insertEdge_eq_ok_iff {g h : Graph} {edge : Edge} :
    g.insertEdge edge = .ok h ↔ g.hasEdge edge.id = false ∧
      ∃ present, h = g.putEdge edge (g.ids.observeEdge edge.id) present := by
  unfold insertEdge
  cases taken : g.hasEdge edge.id with
  | true => exact ⟨fun inserted => (nomatch inserted), fun ⟨free, _⟩ => (nomatch free)⟩
  | false =>
    constructor
    · intro inserted
      cases ends : g.checkEndpoints edge.id edge.src edge.dest with
      | error e => rw [ends] at inserted; cases inserted
      | ok present =>
        rw [ends] at inserted
        cases inserted
        exact ⟨rfl, present.down, rfl⟩
    · rintro ⟨_, present, rfl⟩
      rw [checkEndpoints_of_present _ present]
      rfl

theorem edge?_putEdge (g : Graph) (edge : Edge) (ids : Allocator)
    (present : g.hasNode edge.src = true ∧ g.hasNode edge.dest = true) (k : EdgeId) :
    (g.putEdge edge ids present).edge? k = if edge.id = k then some edge else g.edge? k := by
  simp only [putEdge, edge?, Std.ExtTreeMap.getElem?_insert, Std.compare_eq_iff_eq]

theorem edge?_addEdge {g h : Graph} {src dest : NodeId} {label : Label} {prereq : Option Label}
    {id : EdgeId} (added : g.addEdge src dest label prereq = .ok (id, h)) (k : EdgeId) :
    h.edge? k = if id = k then some ⟨id, src, dest, label, prereq⟩ else g.edge? k := by
  obtain ⟨_, present, rfl⟩ := addEdge_eq_ok added
  exact edge?_putEdge ..

theorem node?_addEdge {g h : Graph} {src dest : NodeId} {label : Label} {prereq : Option Label}
    {id : EdgeId} (added : g.addEdge src dest label prereq = .ok (id, h)) (k : NodeId) :
    h.node? k = g.node? k := by
  obtain ⟨_, _, rfl⟩ := addEdge_eq_ok added
  rfl

theorem edge?_insertEdge {g h : Graph} {edge : Edge} (inserted : g.insertEdge edge = .ok h)
    (id : EdgeId) : h.edge? id = if edge.id = id then some edge else g.edge? id := by
  obtain ⟨_, _, rfl⟩ := insertEdge_eq_ok_iff.mp inserted
  exact edge?_putEdge ..

theorem node?_insertEdge {g h : Graph} {edge : Edge} (inserted : g.insertEdge edge = .ok h)
    (id : NodeId) : h.node? id = g.node? id := by
  obtain ⟨_, _, rfl⟩ := insertEdge_eq_ok_iff.mp inserted
  rfl

theorem edge?_eraseEdge (g : Graph) (id k : EdgeId) :
    (g.eraseEdge id).edge? k = if id = k then none else g.edge? k := by
  simp only [eraseEdge, edge?, Std.ExtTreeMap.getElem?_erase, Std.compare_eq_iff_eq]

theorem node?_eraseEdge (g : Graph) (id : EdgeId) (k : NodeId) :
    (g.eraseEdge id).node? k = g.node? k := rfl

theorem edge?_modifyEdgeLabel (g : Graph) (id k : EdgeId) (f : Label → Label) :
    (g.modifyEdgeLabel id f).edge? k =
      if id = k then (g.edge? k).map fun e => { e with label := f e.label } else g.edge? k := by
  simp only [modifyEdgeLabel, edge?, Std.ExtTreeMap.getElem?_modify, Std.compare_eq_iff_eq]
  split
  · next same => rw [same]
  · rfl

theorem edge?_setPrereq (g : Graph) (id k : EdgeId) (prereq : Option Label) :
    (g.setPrereq id prereq).edge? k =
      if id = k then (g.edge? k).map fun e => { e with prereq } else g.edge? k := by
  simp only [setPrereq, edge?, Std.ExtTreeMap.getElem?_modify, Std.compare_eq_iff_eq]
  split
  · next same => rw [same]
  · rfl

end GraphGrammar.Graph
