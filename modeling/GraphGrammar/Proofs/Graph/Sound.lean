import GraphGrammar.Proofs.Graph.Mutation

/-!
The counters of a graph are past its ids. Every operation keeps this as long as the id without a successor
is not given out. Then an id that the counter gives out is new, because no id of the graph is at or past the
counter.
-/

namespace GraphGrammar.Graph

structure Sound (g : Graph) : Prop where
  node_counted : ∀ {id : NodeId}, g.hasNode id = true →
    Allocator.successor id.index ≤ g.ids.nextNode
  edge_counted : ∀ {id : EdgeId}, g.hasEdge id = true →
    Allocator.successor id.index ≤ g.ids.nextEdge

theorem hasNode_addNode (g : Graph) (label : Label) (id : NodeId) :
    (g.addNode label).2.hasNode id = true ↔ id = g.ids.peekNode ∨ g.hasNode id = true := by
  rw [hasNode_eq, hasNode_eq, node?_addNode]
  split
  · next same => simp [same]
  · next other => simp [Ne.symm other]

theorem hasNode_insertNode {g h : Graph} {node : Node} (inserted : g.insertNode node = .ok h)
    (id : NodeId) : h.hasNode id = true ↔ id = node.id ∨ g.hasNode id = true := by
  rw [hasNode_eq, hasNode_eq, node?_insertNode inserted]
  split
  · next same => simp [same]
  · next other => simp [Ne.symm other]

theorem hasNode_modifyNodeLabel (g : Graph) (id k : NodeId) (f : Label → Label) :
    (g.modifyNodeLabel id f).hasNode k = g.hasNode k := by
  rw [hasNode_eq, hasNode_eq, node?_modifyNodeLabel]
  split <;> simp

theorem hasEdge_eraseEdge (g : Graph) (id k : EdgeId) :
    (g.eraseEdge id).hasEdge k = true ↔ k ≠ id ∧ g.hasEdge k = true := by
  rw [hasEdge_eq, hasEdge_eq, edge?_eraseEdge]
  split
  · next same => simp [same]
  · next other => simp [Ne.symm other]

theorem hasEdge_modifyEdgeLabel (g : Graph) (id k : EdgeId) (f : Label → Label) :
    (g.modifyEdgeLabel id f).hasEdge k = g.hasEdge k := by
  rw [hasEdge_eq, hasEdge_eq, edge?_modifyEdgeLabel]
  split <;> simp

section

variable {P : Label → Prop} {g h : Graph} {nodes : List NodeId} {edges : List EdgeId}

theorem Mutation.hasNode (change : Mutation P g nodes edges h) {id : NodeId}
    (present : h.hasNode id = true) : id ∈ nodes ∨ g.hasNode id = true := by
  obtain ⟨node, found⟩ := exists_node_of_hasNode present
  rcases change.node_origin found with ⟨entered, _⟩ | ⟨old, there, _⟩
  · exact .inl entered
  · exact .inr (hasNode_of_node? there)

theorem Mutation.hasEdge (change : Mutation P g nodes edges h) {id : EdgeId}
    (present : h.hasEdge id = true) : id ∈ edges ∨ g.hasEdge id = true := by
  obtain ⟨edge, found⟩ := exists_edge_of_hasEdge present
  rcases change.edge_origin found with ⟨entered, _⟩ | ⟨old, there, _⟩
  · exact .inl entered
  · exact .inr (hasEdge_of_edge? there)

theorem Mutation.hasNode_of_hasNode (change : Mutation P g nodes edges h) {id : NodeId}
    (present : g.hasNode id = true) : h.hasNode id = true := by
  cases change with
  | addNode => exact (hasNode_addNode ..).mpr (.inr present)
  | addEdge _ _ added =>
    rw [hasNode_eq, node?_addEdge added, ← hasNode_eq]
    exact present
  | insertNode _ inserted => exact (hasNode_insertNode inserted id).mpr (.inr present)
  | insertEdge _ _ inserted =>
    rw [hasNode_eq, node?_insertEdge inserted, ← hasNode_eq]
    exact present
  | writeNodeLabel =>
    rw [hasNode_modifyNodeLabel]
    exact present
  | eraseEdge | writeEdgeLabel | writePrereq => exact present

theorem Development.hasNode (development : Development P g nodes edges h) {id : NodeId}
    (present : h.hasNode id = true) : id ∈ nodes ∨ g.hasNode id = true := by
  induction development with
  | refl => exact .inr present
  | step change _ ih =>
    rw [List.mem_append]
    rcases ih present with later | middle
    · exact .inl (.inr later)
    · exact (change.hasNode middle).imp_left .inl

theorem Development.hasEdge (development : Development P g nodes edges h) {id : EdgeId}
    (present : h.hasEdge id = true) : id ∈ edges ∨ g.hasEdge id = true := by
  induction development with
  | refl => exact .inr present
  | step change _ ih =>
    rw [List.mem_append]
    rcases ih present with later | middle
    · exact .inl (.inr later)
    · exact (change.hasEdge middle).imp_left .inl

theorem Development.hasNode_of_hasNode (development : Development P g nodes edges h) {id : NodeId}
    (present : g.hasNode id = true) : h.hasNode id = true :=
  development.keeps (fun change => change.hasNode_of_hasNode) present

theorem Development.edge_ends (development : Development P g nodes edges h) {id : EdgeId} {edge : Edge}
    (outside : id ∉ edges) (found : h.edge? id = some edge) :
    ∃ old, g.edge? id = some old ∧ edge.src = old.src ∧ edge.dest = old.dest := by
  induction development with
  | refl => exact ⟨edge, found, rfl, rfl⟩
  | step change _ ih =>
    obtain ⟨now, later⟩ := not_or.mp (mt List.mem_append.mpr outside)
    obtain ⟨middle, there, src, dest⟩ := ih later found
    rcases change.edge_origin there with ⟨entered, _⟩ | ⟨old, before, srcBefore, destBefore, _⟩
    · exact absurd entered now
    · exact ⟨old, before, src.trans srcBefore, dest.trans destBefore⟩

end

/-- Both counters stay or grow, and are past all ids that entered. -/
structure Counted (g : Graph) (nodes : List NodeId) (edges : List EdgeId) (h : Graph) : Prop where
  node : g.ids.nextNode ≤ h.ids.nextNode
  edge : g.ids.nextEdge ≤ h.ids.nextEdge
  entered_node : ∀ id ∈ nodes, Allocator.successor id.index ≤ h.ids.nextNode
  entered_edge : ∀ id ∈ edges, Allocator.successor id.index ≤ h.ids.nextEdge

theorem counted_of_ids {g h : Graph} (same : h.ids = g.ids) : Counted g [] [] h := by
  refine ⟨?_, ?_, List.forall_mem_nil _, List.forall_mem_nil _⟩ <;> rw [same] <;> exact UInt64.le_refl _

theorem le_add_one {n : UInt64} (room : n ≠ lastIndex) : n ≤ n + 1 :=
  Allocator.successor_of_ne room ▸ Allocator.le_successor n

theorem counted_insertNode {g h : Graph} {node : Node} (inserted : g.insertNode node = .ok h) :
    Counted g [node.id] [] h := by
  obtain ⟨_, _, ids⟩ := insertNode_eq_ok inserted
  refine ⟨?_, ?_, List.forall_mem_singleton.mpr ?_, List.forall_mem_nil _⟩ <;> rw [ids]
  · exact Allocator.le_max_left _ _
  · exact UInt64.le_refl _
  · exact Allocator.le_max_right _ _

theorem counted_insertEdge {g h : Graph} {edge : Edge} (inserted : g.insertEdge edge = .ok h) :
    Counted g [] [edge.id] h := by
  obtain ⟨_, _, rfl⟩ := insertEdge_eq_ok_iff.mp inserted
  exact ⟨UInt64.le_refl _, Allocator.le_max_left _ _, List.forall_mem_nil _,
    List.forall_mem_singleton.mpr (Allocator.le_max_right _ _)⟩

theorem Mutation.counted {P : Label → Prop} {g h : Graph} {nodes : List NodeId} {edges : List EdgeId}
    (change : Mutation P g nodes edges h) (spared : SparesLast nodes edges) : Counted g nodes edges h := by
  cases change with
  | addNode =>
    have room : g.ids.nextNode ≠ lastIndex := fun last =>
      spared.1 (List.mem_singleton.mpr (congrArg NodeId.mk last.symm))
    exact ⟨le_add_one room, UInt64.le_refl _,
      List.forall_mem_singleton.mpr (Allocator.successor_of_ne room ▸ UInt64.le_refl _), List.forall_mem_nil _⟩
  | addEdge _ _ added =>
    obtain ⟨rfl, _, rfl⟩ := addEdge_eq_ok added
    have room : g.ids.nextEdge ≠ lastIndex := fun last =>
      spared.2 (List.mem_singleton.mpr (congrArg EdgeId.mk last.symm))
    exact ⟨UInt64.le_refl _, le_add_one room, List.forall_mem_nil _,
      List.forall_mem_singleton.mpr (Allocator.successor_of_ne room ▸ UInt64.le_refl _)⟩
  | insertNode _ inserted => exact counted_insertNode inserted
  | insertEdge _ _ inserted => exact counted_insertEdge inserted
  | eraseEdge | writeNodeLabel | writeEdgeLabel | writePrereq => exact counted_of_ids rfl

theorem sound_empty : (∅ : Graph).Sound where
  node_counted present := by
    rw [hasNode_eq, node?_empty] at present
    cases present
  edge_counted present := by
    rw [hasEdge_eq, edge?_empty] at present
    cases present

section

variable {P : Label → Prop} {g h : Graph} {nodes : List NodeId} {edges : List EdgeId}

theorem Mutation.sound_of_counted (change : Mutation P g nodes edges h) (counted : Counted g nodes edges h)
    (sound : g.Sound) : h.Sound := by
  refine ⟨fun present => ?_, fun present => ?_⟩
  · rcases change.hasNode present with entered | old
    · exact counted.entered_node _ entered
    · exact UInt64.le_trans (sound.node_counted old) counted.node
  · rcases change.hasEdge present with entered | old
    · exact counted.entered_edge _ entered
    · exact UInt64.le_trans (sound.edge_counted old) counted.edge

theorem Mutation.sound (change : Mutation P g nodes edges h) (spared : SparesLast nodes edges)
    (sound : g.Sound) : h.Sound :=
  change.sound_of_counted (change.counted spared) sound

theorem Development.sound (development : Development P g nodes edges h)
    (spared : SparesLast nodes edges) (sound : g.Sound) : h.Sound :=
  development.invariant Mutation.sound spared sound

end

namespace Sound

variable {g h : Graph}

theorem fresh_node (sound : g.Sound) (room : g.ids.peekNode ≠ .last) :
    g.hasNode g.ids.peekNode = false := by
  have index : g.ids.nextNode ≠ lastIndex := fun same => room (congrArg NodeId.mk same)
  apply Bool.eq_false_iff.mpr
  intro present
  exact Allocator.ne_of_successor_le index (sound.node_counted present) rfl

theorem fresh_edge (sound : g.Sound) (room : g.ids.peekEdge ≠ .last) :
    g.hasEdge g.ids.peekEdge = false := by
  have index : g.ids.nextEdge ≠ lastIndex := fun same => room (congrArg EdgeId.mk same)
  apply Bool.eq_false_iff.mpr
  intro present
  exact Allocator.ne_of_successor_le index (sound.edge_counted present) rfl

theorem mutation {nodes : List NodeId} {edges : List EdgeId} (sound : g.Sound)
    (change : Mutation (fun _ => True) g nodes edges h) (spared : SparesLast nodes edges) : h.Sound :=
  change.sound spared sound

theorem addNode (sound : g.Sound) (label : Label) (room : g.ids.peekNode ≠ .last) :
    (g.addNode label).2.Sound :=
  sound.mutation (.addNode g trivial) ⟨fun last => room (List.mem_singleton.mp last).symm, List.not_mem_nil⟩

theorem addEdge (sound : g.Sound) {src dest : NodeId} {label : Label} {prereq : Option Label}
    {id : EdgeId} (added : g.addEdge src dest label prereq = .ok (id, h)) (room : id ≠ .last) :
    h.Sound :=
  sound.mutation (.addEdge trivial (fun _ _ => trivial) added)
    ⟨List.not_mem_nil, fun last => room (List.mem_singleton.mp last).symm⟩

theorem insertNode (sound : g.Sound) {node : Node} (inserted : g.insertNode node = .ok h) : h.Sound :=
  have change : Mutation (fun _ => True) g [node.id] [] h := .insertNode trivial inserted
  change.sound_of_counted (counted_insertNode inserted) sound

theorem insertEdge (sound : g.Sound) {edge : Edge} (inserted : g.insertEdge edge = .ok h) : h.Sound :=
  have change : Mutation (fun _ => True) g [] [edge.id] h := .insertEdge trivial (fun _ _ => trivial) inserted
  change.sound_of_counted (counted_insertEdge inserted) sound

theorem eraseEdge (sound : g.Sound) (id : EdgeId) : (g.eraseEdge id).Sound :=
  sound.mutation (.eraseEdge g id) ⟨List.not_mem_nil, List.not_mem_nil⟩

theorem modifyNodeLabel (sound : g.Sound) (id : NodeId) (f : Label → Label) :
    (g.modifyNodeLabel id f).Sound :=
  sound.mutation (.writeNodeLabel g id fun _ _ => trivial) ⟨List.not_mem_nil, List.not_mem_nil⟩

theorem modifyEdgeLabel (sound : g.Sound) (id : EdgeId) (f : Label → Label) :
    (g.modifyEdgeLabel id f).Sound :=
  sound.mutation (.writeEdgeLabel g id fun _ _ => trivial) ⟨List.not_mem_nil, List.not_mem_nil⟩

end Sound

end GraphGrammar.Graph
