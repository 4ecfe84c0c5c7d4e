import GraphGrammar.Proofs.Graph.Issue

/-!
What an inserted description becomes, record by record. Its nodes, and its edges between nodes, are placed
under the ids from the counters on. As long as the ids do not run out, a graph has afterwards what it had
before and what was placed.
-/

namespace GraphGrammar

def EdgeSpec.bound (spec : EdgeSpec) (bindings : Bindings) (id : EdgeId) (src dest : NodeId) : Edge :=
  ⟨id, src, dest, (spec.mapStrings bindings.text?).label, (spec.mapStrings bindings.text?).prereq⟩

namespace Graph

/-- The second graph has the nodes and edges of the first one and the given ones. -/
structure Adds (g : Graph) (nodes : List Node) (edges : List Edge) (h : Graph) : Prop where
  found_node : ∀ {id node}, h.node? id = some node ↔
    g.node? id = some node ∨ node ∈ nodes ∧ node.id = id
  found_edge : ∀ {id edge}, h.edge? id = some edge ↔
    g.edge? id = some edge ∨ edge ∈ edges ∧ edge.id = id

theorem placed_iff {α κ : Type} [DecidableEq κ] (key : α → κ) (record : α) {a : α} {old : Option α} {k : κ}
    (absent : key record = k → old = none) :
    (if key record = k then some record else old) = some a ↔ old = some a ∨ a ∈ [record] ∧ key a = k := by
  by_cases same : key record = k
  · rw [if_pos same, absent same]
    constructor
    · rintro ⟨⟩
      exact .inr ⟨.head _, same⟩
    · rintro (before | ⟨placed, _⟩)
      · cases before
      · rw [List.mem_singleton.mp placed]
  · rw [if_neg same]
    refine ⟨.inl, ?_⟩
    rintro (before | ⟨placed, here⟩)
    · exact before
    · cases List.mem_singleton.mp placed
      exact absurd here same

namespace Adds

variable {g h k : Graph} {nodes moreNodes : List Node} {edges moreEdges : List Edge}

theorem new_node (adds : Adds g nodes edges h) {node : Node} (new : node ∈ nodes) : h.node? node.id = some node :=
  adds.found_node.mpr (.inr ⟨new, rfl⟩)

theorem new_edge (adds : Adds g nodes edges h) {edge : Edge} (new : edge ∈ edges) : h.edge? edge.id = some edge :=
  adds.found_edge.mpr (.inr ⟨new, rfl⟩)

theorem refl (g : Graph) : Adds g [] [] g := by
  constructor <;> simp

theorem trans (first : Adds g nodes edges h) (rest : Adds h moreNodes moreEdges k) :
    Adds g (nodes ++ moreNodes) (edges ++ moreEdges) k := by
  constructor
  · intro id node
    rw [rest.found_node, first.found_node, List.mem_append, or_and_right, or_assoc]
  · intro id edge
    rw [rest.found_edge, first.found_edge, List.mem_append, or_and_right, or_assoc]

theorem addNode (label : Label) (fresh : g.hasNode g.ids.peekNode = false) :
    Adds g [⟨g.ids.peekNode, label⟩] [] (g.addNode label).2 where
  found_node {id node} := by
    rw [node?_addNode]
    refine placed_iff Node.id ⟨g.ids.peekNode, label⟩ ?_
    rintro rfl
    simpa [hasNode_eq] using fresh
  found_edge := by simp [edge?_addNode]

theorem addEdge {src dest : NodeId} {label : Label} {prereq : Option Label} {id : EdgeId}
    (added : g.addEdge src dest label prereq = .ok (id, h)) (fresh : g.hasEdge id = false) :
    Adds g [] [⟨id, src, dest, label, prereq⟩] h where
  found_node := by simp [node?_addEdge added]
  found_edge {k edge} := by
    rw [edge?_addEdge added]
    refine placed_iff Edge.id ⟨id, src, dest, label, prereq⟩ ?_
    rintro rfl
    simpa [hasEdge_eq] using fresh

theorem modifyEdgeLabel {edge : Edge} (found : g.edge? edge.id = some edge) (f : Label → Label) :
    Adds (g.eraseEdge edge.id) [] [{ edge with label := f edge.label }]
      (g.modifyEdgeLabel edge.id f) where
  found_node {id node} := by
    have same : (g.modifyEdgeLabel edge.id f).node? id = (g.eraseEdge edge.id).node? id := rfl
    simp [same]
  found_edge {id other} := by
    have written : (g.modifyEdgeLabel edge.id f).edge? id =
        if edge.id = id then some { edge with label := f edge.label } else (g.eraseEdge edge.id).edge? id := by
      rw [edge?_modifyEdgeLabel, edge?_eraseEdge]
      split
      · next here => rw [← here, found, Option.map_some]
      · rfl
    rw [written]
    refine placed_iff Edge.id { edge with label := f edge.label } fun here => ?_
    rw [edge?_eraseEdge, if_pos here]

theorem hasNode (adds : Adds g nodes edges h) (id : NodeId) :
    h.hasNode id = true ↔ g.hasNode id = true ∨ id ∈ nodes.map Node.id := by
  simp only [hasNode_eq, Option.isSome_iff_exists, adds.found_node, List.mem_map]
  constructor
  · rintro ⟨node, old | ⟨placed, same⟩⟩
    · exact .inl ⟨node, old⟩
    · exact .inr ⟨node, placed, same⟩
  · rintro (⟨node, old⟩ | ⟨node, placed, same⟩)
    · exact ⟨node, .inl old⟩
    · exact ⟨node, .inr ⟨placed, same⟩⟩

theorem hasEdge (adds : Adds g nodes edges h) (id : EdgeId) :
    h.hasEdge id = true ↔ g.hasEdge id = true ∨ id ∈ edges.map Edge.id := by
  simp only [hasEdge_eq, Option.isSome_iff_exists, adds.found_edge, List.mem_map]
  constructor
  · rintro ⟨edge, old | ⟨placed, same⟩⟩
    · exact .inl ⟨edge, old⟩
    · exact .inr ⟨edge, placed, same⟩
  · rintro (⟨edge, old⟩ | ⟨edge, placed, same⟩)
    · exact ⟨edge, .inl old⟩
    · exact ⟨edge, .inr ⟨placed, same⟩⟩

end Adds

/-- The nodes that described ones become, from the given number on. -/
def placeNodes (next : UInt64) : List NodeSpec → List Node
  | [] => []
  | spec :: rest => ⟨⟨next⟩, spec.label⟩ :: placeNodes (next + 1) rest

theorem addNodes_ids (g : Graph) (specs : List NodeSpec) :
    (g.addNodes specs).1.map Prod.snd = (placeNodes g.ids.nextNode specs).map Node.id := by
  induction specs generalizing g with
  | nil => rfl
  | cons spec rest ih => exact congrArg (g.ids.peekNode :: ·) (ih (g.addNode spec.label).2)

theorem addNodes_bindings (g : Graph) (specs : List NodeSpec) :
    (g.addNodes specs).1 =
      (specs.map NodeSpec.name).zip ((placeNodes g.ids.nextNode specs).map Node.id) := by
  induction specs generalizing g with
  | nil => rfl
  | cons spec rest ih =>
    exact congrArg ((spec.name, g.ids.peekNode) :: ·) (ih (g.addNode spec.label).2)

theorem addNodes_nextEdge (g : Graph) (specs : List NodeSpec) :
    (g.addNodes specs).2.ids.nextEdge = g.ids.nextEdge := by
  induction specs generalizing g with
  | nil => rfl
  | cons spec rest ih => exact ih (g.addNode spec.label).2

theorem hasNode_addNodes {g : Graph} {id : NodeId} (present : g.hasNode id = true)
    (specs : List NodeSpec) : (g.addNodes specs).2.hasNode id = true := by
  induction specs generalizing g with
  | nil => exact present
  | cons spec rest ih => exact ih ((hasNode_addNode ..).mpr (.inr present))

theorem length_addNodes (g : Graph) (specs : List NodeSpec) :
    (g.addNodes specs).1.length = specs.length := by
  induction specs generalizing g with
  | nil => rfl
  | cons spec rest ih => exact congrArg (· + 1) (ih (g.addNode spec.label).2)

theorem addNodes_adds {g : Graph} (sound : g.Sound) (specs : List NodeSpec)
    (spared : NodeId.last ∉ (g.addNodes specs).1.map Prod.snd) :
    Adds g (placeNodes g.ids.nextNode specs) [] (g.addNodes specs).2 := by
  induction specs generalizing g with
  | nil => exact .refl g
  | cons spec rest ih =>
    rw [addNodes_cons] at spared ⊢
    simp only [List.map_cons, List.mem_cons, not_or] at spared
    have room : g.ids.peekNode ≠ .last := Ne.symm spared.1
    have first := Adds.addNode spec.label (sound.fresh_node room)
    exact first.trans (ih (sound.addNode spec.label room) spared.2)

def ends? (present : NodeId → Bool) (bindings : Bindings) (spec : EdgeSpec) :
    Option (NodeId × NodeId) := do
  let src ← bindings.resolve? spec.src
  let dest ← bindings.resolve? spec.dest
  if present src && present dest then some (src, dest) else none

def placeEdges (present : NodeId → Bool) (bindings : Bindings) (next : UInt64) :
    List EdgeSpec → List Edge
  | [] => []
  | spec :: rest =>
    match ends? present bindings spec with
    | some (src, dest) =>
      spec.bound bindings ⟨next⟩ src dest :: placeEdges present bindings (next + 1) rest
    | none => placeEdges present bindings next rest

theorem ends?_eq_some_iff {present : NodeId → Bool} {bindings : Bindings} {spec : EdgeSpec}
    {src dest : NodeId} :
    ends? present bindings spec = some (src, dest) ↔ bindings.resolve? spec.src = some src ∧
      bindings.resolve? spec.dest = some dest ∧ present src = true ∧ present dest = true := by
  simp only [ends?, Option.bind_eq_bind, Option.bind_eq_some_iff]
  constructor
  · rintro ⟨s, hs, d, hd, there⟩
    split at there
    · next both =>
      cases there
      exact ⟨hs, hd, by simpa using both⟩
    · cases there
  · rintro ⟨hs, hd, both⟩
    exact ⟨src, hs, dest, hd, by simp [both]⟩

theorem addEdgeSpec_of_ends {g : Graph} {bindings : Bindings} {spec : EdgeSpec} {src dest : NodeId}
    (ends : ends? g.hasNode bindings spec = some (src, dest)) :
    ∃ h, g.addEdgeSpec bindings spec = some (g.ids.peekEdge, h) ∧
      g.addEdge src dest (spec.mapStrings bindings.text?).label
        (spec.mapStrings bindings.text?).prereq = .ok (g.ids.peekEdge, h) := by
  obtain ⟨hsrc, hdest, present⟩ := ends?_eq_some_iff.mp ends
  have added := addEdge_of_present (spec.mapStrings bindings.text?).label
    (spec.mapStrings bindings.text?).prereq present
  refine ⟨_, ?_, added⟩
  simp [addEdgeSpec, hsrc, hdest, added, Except.toOption]

theorem addEdgeSpec_of_no_ends {g : Graph} {bindings : Bindings} {spec : EdgeSpec}
    (ends : ends? g.hasNode bindings spec = none) : g.addEdgeSpec bindings spec = none := by
  cases result : g.addEdgeSpec bindings spec with
  | none => rfl
  | some pair =>
    obtain ⟨src, dest, hsrc, hdest, added⟩ := addEdgeSpec_eq_some result
    obtain ⟨_, present, _⟩ := addEdge_eq_ok added
    rw [ends?_eq_some_iff.mpr ⟨hsrc, hdest, present⟩] at ends
    cases ends

theorem addEdge_context {g h : Graph} {src dest : NodeId} {label : Label} {prereq : Option Label}
    {id : EdgeId} (added : g.addEdge src dest label prereq = .ok (id, h)) :
    h.hasNode = g.hasNode ∧ h.ids.nextEdge = g.ids.nextEdge + 1 := by
  obtain ⟨_, _, rfl⟩ := addEdge_eq_ok added
  exact ⟨rfl, rfl⟩

theorem addEdgeSpecs_hasNode (g : Graph) (bindings : Bindings) (specs : List EdgeSpec) :
    (g.addEdgeSpecs bindings specs).2.2.hasNode = g.hasNode := by
  induction specs generalizing g with
  | nil => rfl
  | cons spec rest ih =>
    unfold addEdgeSpecs
    cases result : g.addEdgeSpec bindings spec with
    | none => exact ih g
    | some pair =>
      obtain ⟨src, dest, _, _, added⟩ := addEdgeSpec_eq_some result
      exact (ih pair.2).trans (addEdge_context added).1

theorem addEdgeSpecs_ids (g : Graph) (bindings : Bindings) (specs : List EdgeSpec) :
    (g.addEdgeSpecs bindings specs).1 =
      (placeEdges g.hasNode bindings g.ids.nextEdge specs).map Edge.id := by
  induction specs generalizing g with
  | nil => rfl
  | cons spec rest ih =>
    unfold addEdgeSpecs placeEdges
    cases ends : ends? g.hasNode bindings spec with
    | none => simp only [addEdgeSpec_of_no_ends ends, ih]
    | some pair =>
      obtain ⟨h, result, added⟩ := addEdgeSpec_of_ends ends
      obtain ⟨present, next⟩ := addEdge_context added
      have tail := ih h
      rw [present, next] at tail
      simp only [result, tail, List.map_cons]
      rfl

theorem length_addEdgeSpecs (g : Graph) (bindings : Bindings) (specs : List EdgeSpec) :
    (g.addEdgeSpecs bindings specs).1.length + (g.addEdgeSpecs bindings specs).2.1 =
      specs.length := by
  induction specs generalizing g with
  | nil => rfl
  | cons spec rest ih =>
    unfold addEdgeSpecs
    cases g.addEdgeSpec bindings spec with
    | none => exact congrArg (· + 1) (ih g)
    | some pair => exact (Nat.succ_add _ _).trans (congrArg (· + 1) (ih pair.2))

theorem addEdgeSpecs_adds {g : Graph} (sound : g.Sound) (bindings : Bindings)
    (specs : List EdgeSpec) (spared : EdgeId.last ∉ (g.addEdgeSpecs bindings specs).1) :
    Adds g [] (placeEdges g.hasNode bindings g.ids.nextEdge specs)
      (g.addEdgeSpecs bindings specs).2.2 := by
  induction specs generalizing g with
  | nil => exact .refl g
  | cons spec rest ih =>
    unfold addEdgeSpecs at spared ⊢
    unfold placeEdges
    cases ends : ends? g.hasNode bindings spec with
    | none =>
      simp only [addEdgeSpec_of_no_ends ends] at spared ⊢
      exact ih sound spared
    | some pair =>
      obtain ⟨h, result, added⟩ := addEdgeSpec_of_ends ends
      obtain ⟨present, next⟩ := addEdge_context added
      simp only [result, List.mem_cons, not_or] at spared ⊢
      have room : g.ids.peekEdge ≠ .last := Ne.symm spared.1
      have tail := ih (sound.addEdge added room) spared.2
      rw [present, next] at tail
      exact (Adds.addEdge added (sound.fresh_edge room)).trans tail

/-- The last of the described edges is there, also where ids run out. -/
theorem edge_of_addEdgeSpecs_last {g : Graph} {bindings : Bindings} {spec : EdgeSpec}
    {src dest : NodeId} (ends : ends? g.hasNode bindings spec = some (src, dest)) (specs : List EdgeSpec) :
    ∃ id, (g.addEdgeSpecs bindings (specs ++ [spec])).2.2.edge? id =
      some (spec.bound bindings id src dest) := by
  induction specs generalizing g with
  | nil =>
    obtain ⟨h, result, added⟩ := addEdgeSpec_of_ends ends
    refine ⟨g.ids.peekEdge, ?_⟩
    rw [List.nil_append, addEdgeSpecs, result]
    exact (edge?_addEdge added _).trans (if_pos rfl)
  | cons other rest ih =>
    rw [List.cons_append, addEdgeSpecs]
    cases result : g.addEdgeSpec bindings other with
    | none => exact ih ends
    | some pair =>
      obtain ⟨_, _, _, _, added⟩ := addEdgeSpec_eq_some result
      rw [← (addEdge_context added).1] at ends
      exact ih ends

theorem mem_placeEdges {present : NodeId → Bool} {bindings : Bindings} {next : UInt64}
    {specs : List EdgeSpec} {edge : Edge} (placed : edge ∈ placeEdges present bindings next specs) :
    ∃ spec ∈ specs, ∃ src dest, ends? present bindings spec = some (src, dest) ∧
      edge = spec.bound bindings edge.id src dest := by
  induction specs generalizing next with
  | nil => cases placed
  | cons spec rest ih =>
    unfold placeEdges at placed
    split at placed
    · next src dest ends =>
      rcases List.mem_cons.mp placed with rfl | later
      · exact ⟨spec, .head _, src, dest, ends, rfl⟩
      · obtain ⟨other, member, made⟩ := ih later
        exact ⟨other, .tail _ member, made⟩
    · obtain ⟨other, member, made⟩ := ih placed
      exact ⟨other, .tail _ member, made⟩

theorem exists_mem_placeEdges {present : NodeId → Bool} {bindings : Bindings} {spec : EdgeSpec}
    {src dest : NodeId} (ends : ends? present bindings spec = some (src, dest)) {specs : List EdgeSpec}
    (member : spec ∈ specs) (next : UInt64) :
    ∃ id, spec.bound bindings id src dest ∈ placeEdges present bindings next specs := by
  induction specs generalizing next with
  | nil => cases member
  | cons other rest ih =>
    unfold placeEdges
    rcases List.mem_cons.mp member with rfl | later
    · rw [ends]
      exact ⟨_, .head _⟩
    · split
      · obtain ⟨id, placed⟩ := ih later (next + 1)
        exact ⟨id, .tail _ placed⟩
      · exact ih later next

theorem placeEdges_pair {present : NodeId → Bool} {bindings : Bindings} {e e' : EdgeSpec}
    {src dest src' dest' : NodeId} (ends : ends? present bindings e = some (src, dest))
    (ends' : ends? present bindings e' = some (src', dest')) (next : UInt64) :
    placeEdges present bindings next [e, e'] =
      [e.bound bindings ⟨next⟩ src dest, e'.bound bindings ⟨next + 1⟩ src' dest'] := by
  simp [placeEdges, ends, ends']

def placedEdges (g : Graph) (spec : SubgraphSpec) : List Edge :=
  placeEdges (g.addNodes spec.nodes).2.hasNode (g.addNodes spec.nodes).1 g.ids.nextEdge spec.edges

theorem insertSubgraph_ids (g : Graph) (spec : SubgraphSpec) :
    (g.insertSubgraph spec).1.addedNodes = (placeNodes g.ids.nextNode spec.nodes).map Node.id ∧
      (g.insertSubgraph spec).1.addedEdges = (g.placedEdges spec).map Edge.id := by
  constructor
  · exact addNodes_ids g spec.nodes
  · rw [placedEdges, ← addNodes_nextEdge g spec.nodes]
    exact addEdgeSpecs_ids _ _ spec.edges

theorem insertSubgraph_counts (g : Graph) (spec : SubgraphSpec) :
    (g.insertSubgraph spec).1.addedNodes.length = spec.nodes.length ∧
      (g.insertSubgraph spec).1.addedEdges.length + (g.insertSubgraph spec).1.droppedEdges =
        spec.edges.length := by
  constructor
  · exact (List.length_map _).trans (length_addNodes g spec.nodes)
  · exact length_addEdgeSpecs _ _ spec.edges

theorem insertSubgraph_droppedEdges {g : Graph} {spec : SubgraphSpec}
    (placed : (g.placedEdges spec).length = spec.edges.length) :
    (g.insertSubgraph spec).1.droppedEdges = 0 := by
  have counts := (insertSubgraph_counts g spec).2
  rw [(insertSubgraph_ids g spec).2, List.length_map, placed] at counts
  omega

theorem Sound.insertSubgraph {g : Graph} (sound : g.Sound) (spec : SubgraphSpec)
    (spared : SparesLast (g.insertSubgraph spec).1.addedNodes (g.insertSubgraph spec).1.addedEdges) :
    (g.insertSubgraph spec).2.Sound := by
  have anything : spec.Allowed fun _ => True :=
    ⟨fun _ _ => trivial, fun _ _ => trivial, fun _ _ _ _ => trivial⟩
  have development := insertSubgraph_development ignoresTexts_true g anything
  exact development.sound spared sound

theorem fresh_placeNodes {g : Graph} (sound : g.Sound) {spec : SubgraphSpec}
    (spared : SparesLast (g.insertSubgraph spec).1.addedNodes (g.insertSubgraph spec).1.addedEdges)
    {node : Node} (placed : node ∈ placeNodes g.ids.nextNode spec.nodes) :
    g.hasNode node.id = false := by
  have listed := List.mem_map_of_mem (f := Node.id) placed
  rw [← (insertSubgraph_ids g spec).1] at listed
  have issued := (insertSubgraph_issues g spec spared).mem_nodes listed
  apply Bool.eq_false_iff.mpr
  intro present
  have room : node.id.index ≠ lastIndex := by
    intro same
    have last : node.id = .last := congrArg NodeId.mk same
    rw [last] at listed
    exact spared.1 listed
  have below := Allocator.lt_of_successor_le room (sound.node_counted present)
  exact absurd issued.1 (UInt64.not_le.mpr below)

theorem insertSubgraph_adds {g : Graph} (sound : g.Sound) (spec : SubgraphSpec)
    (spared : SparesLast (g.insertSubgraph spec).1.addedNodes (g.insertSubgraph spec).1.addedEdges) :
    Adds g (placeNodes g.ids.nextNode spec.nodes) (g.placedEdges spec) (g.insertSubgraph spec).2 := by
  have nodes := addNodes_adds sound spec.nodes spared.1
  have development : Development (fun _ => True) g ((g.addNodes spec.nodes).1.map Prod.snd) []
      (g.addNodes spec.nodes).2 := addNodes_development g spec.nodes fun _ _ => trivial
  have withNodes := development.sound ⟨spared.1, by decide⟩ sound
  have edges := addEdgeSpecs_adds withNodes (g.addNodes spec.nodes).1 spec.edges spared.2
  have both := nodes.trans edges
  rw [List.append_nil, addNodes_nextEdge] at both
  exact both

end Graph

end GraphGrammar
