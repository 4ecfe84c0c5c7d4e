import GraphGrammar.Proofs.Dungeon.Effort
import GraphGrammar.Proofs.Dungeon.Reach
import GraphGrammar.Proofs.Graph.Insertion
import GraphGrammar.Proofs.Id.Text
import Mathlib.Algebra.Group.Nat.Defs

/-!
Every dungeon can be solved. A step takes away no edge but an undecided one, which has no lock on it, and
puts in its place edges by which one still comes from its source to its destination. The key to a new
lock lies in a room beside the source. So no walk gets lost, and new rooms are reached.
-/

namespace GraphGrammar.Dungeon

open GraphGrammar.Graph (SparesLast SubgraphAdded)

/-- A dungeon of which all rooms are reached and whose locks have keys in it. -/
structure Solvable (g : Graph) : Prop where
  sound : g.Sound
  entrance : g.hasNode entrance = true
  goal : g.hasNode goal = true
  reached : ∀ {id}, g.hasNode id = true → Reached g id
  key : ∀ {id edge}, g.edge? id = some edge → isLocked edge = true →
    ∃ key, keyRoom? edge = some key ∧ g.hasNode key = true

variable {settings : DungeonSettings} {text : TextGenerator} {g h : Graph}

theorem solvable_seedGraph : Solvable seedGraph := by
  have way : seedGraph.edge? ⟨0⟩ = some ⟨⟨0⟩, entrance, goal, path 0, none⟩ :=
    seedGraph_adds.new_edge (.head _)
  have free : isLocked ⟨⟨0⟩, entrance, goal, path 0, none⟩ = false :=
    isLocked_eq_false (stateless_path 0)
  refine ⟨sound_seedGraph, rfl, rfl, fun {id} present => ?_, fun {id edge} found lock => ?_⟩
  · obtain ⟨node, found⟩ := Graph.exists_node_of_hasNode present
    obtain ⟨new, rfl⟩ := found_node_seedGraph found
    simp only [List.mem_cons, List.not_mem_nil, or_false] at new
    rcases new with rfl | rfl
    · exact .entrance
    · exact .unlocked way free .entrance
  · rw [found_edge_seedGraph found, free] at lock
    cases lock

theorem Solvable.modifyNodeLabel (solvable : Solvable g) (id : NodeId) (f : Label → Label) :
    Solvable (g.modifyNodeLabel id f) where
  sound := solvable.sound.modifyNodeLabel id f
  entrance := (Graph.hasNode_modifyNodeLabel ..).trans solvable.entrance
  goal := (Graph.hasNode_modifyNodeLabel ..).trans solvable.goal
  reached present := by
    rw [Graph.hasNode_modifyNodeLabel] at present
    refine (solvable.reached present).of_passes fun {k edge} found => ?_
    have there : (g.modifyNodeLabel id f).edge? k = some edge := found
    exact reached_passes there
  key found lock := by
    obtain ⟨key, named, present⟩ := solvable.key found lock
    exact ⟨key, named, (Graph.hasNode_modifyNodeLabel ..).trans present⟩

theorem Solvable.modifyEdgeLabel (solvable : Solvable g) (id : EdgeId) {f : Label → Label}
    (free : ∀ edge : Edge, isLocked { edge with label := f edge.label } = false) :
    Solvable (g.modifyEdgeLabel id f) where
  sound := solvable.sound.modifyEdgeLabel id f
  entrance := solvable.entrance
  goal := solvable.goal
  reached present := by
    refine (solvable.reached present).of_passes fun {k edge} found src held => ?_
    have there := Graph.edge?_modifyEdgeLabel g id k f
    by_cases same : id = k
    · rw [if_pos same, found] at there
      have passed := Reached.unlocked there (free edge)
      exact passed src
    · rw [if_neg same, found] at there
      exact reached_passes there src held
  key {k edge} found lock := by
    rw [Graph.edge?_modifyEdgeLabel] at found
    split at found
    · obtain ⟨old, _, rfl⟩ := Option.map_eq_some_iff.mp found
      rw [free] at lock
      cases lock
    · exact solvable.key found lock

structure Inserted (g : Graph) (m : MatchedEdge) (spec : SubgraphSpec) (bindings : Bindings)
    (h : Graph) : Prop where
  matched : Undecided g m
  sound : h.Sound
  added : SubgraphAdded (g.eraseEdge m.edge.id) bindings spec h
  src : m.src.id = m.edge.src ∧ h.hasNode m.edge.src = true
  dest : m.dest.id = m.edge.dest ∧ h.hasNode m.edge.dest = true

theorem Solvable.inserted (solvable : Solvable g) {m : MatchedEdge} (matched : Undecided g m)
    {spec : SubgraphSpec}
    (spared : SparesLast ((g.eraseEdge m.edge.id).insertSubgraph spec).1.addedNodes
      ((g.eraseEdge m.edge.id).insertSubgraph spec).1.addedEdges) :
    Inserted g m spec ((g.eraseEdge m.edge.id).addNodes spec.nodes).1
      ((g.eraseEdge m.edge.id).insertSubgraph spec).2 := by
  have erased := solvable.sound.eraseEdge m.edge.id
  have added := Graph.insertSubgraph_added erased spec spared
  have ends := Graph.ends matched.edge
  refine ⟨matched, erased.insertSubgraph spec spared, added, ⟨Graph.node_id matched.src, ?_⟩,
    Graph.node_id matched.dest, ?_⟩
  · exact (added.node _).mpr (.inr ends.1)
  · exact (added.node _).mpr (.inr ends.2)

section

variable {m : MatchedEdge} {spec : SubgraphSpec} {bindings : Bindings}

theorem Inserted.bound (inserted : Inserted g m spec bindings h) {id : NodeId}
    (listed : id ∈ bindings.map Prod.snd) : h.hasNode id = true :=
  (inserted.added.node id).mpr (.inl listed)

theorem Inserted.through (inserted : Inserted g m spec bindings h) {e : EdgeSpec} {src dest : NodeId}
    (member : e ∈ spec.edges)
    (hsrc : bindings.resolve? e.src = some src) (hdest : bindings.resolve? e.dest = some dest)
    (srcPresent : h.hasNode src = true) (destPresent : h.hasNode dest = true)
    (opens : ∀ id, isLocked (e.bound bindings id src dest) = true →
      ∃ key, keyRoom? (e.bound bindings id src dest) = some key ∧ Reached h key)
    (reached : Reached h src) : Reached h dest := by
  obtain ⟨id, found⟩ := inserted.added.added member hsrc hdest srcPresent destPresent
  exact reached_passes found reached (opens id)

theorem Inserted.along (inserted : Inserted g m spec bindings h) {e : EdgeSpec} {src dest : NodeId}
    (member : e ∈ spec.edges) (stateless : e.label.contains "state" = false)
    (hsrc : bindings.resolve? e.src = some src) (hdest : bindings.resolve? e.dest = some dest)
    (srcPresent : h.hasNode src = true) (destPresent : h.hasNode dest = true)
    (reached : Reached h src) : Reached h dest := by
  refine inserted.through member hsrc hdest srcPresent destPresent (fun id lock => ?_) reached
  rw [isLocked_bound stateless] at lock
  cases lock

/-- What takes the place of an undecided edge has to lead to its destination and to the new rooms. -/
theorem Solvable.replace (solvable : Solvable g) (inserted : Inserted g m spec bindings h)
    (through : Reached h m.edge.src → Reached h m.edge.dest)
    (beside : ∀ id ∈ bindings.map Prod.snd, Reached h m.edge.src → Reached h id)
    (keys : ∀ e ∈ spec.edges, ∀ id src dest, isLocked (e.bound bindings id src dest) = true →
      ∃ key, keyRoom? (e.bound bindings id src dest) = some key ∧ h.hasNode key = true) :
    Solvable h := by
  obtain ⟨matched, sound, added, _, _⟩ := inserted
  have stays {id : NodeId} (present : g.hasNode id = true) : h.hasNode id = true :=
    (added.node id).mpr (.inr present)
  have old {id : NodeId} (present : g.hasNode id = true) : Reached h id := by
    refine (solvable.reached present).of_passes fun {k edge} found src held => ?_
    by_cases same : m.edge.id = k
    · subst same
      rw [matched.edge] at found
      cases found
      exact through src
    · have there : (g.eraseEdge m.edge.id).edge? k = some edge := by
        rw [Graph.edge?_eraseEdge, if_neg same, found]
      exact reached_passes (added.kept there) src held
  refine ⟨sound, stays solvable.entrance, stays solvable.goal, fun {id} present => ?_,
    fun {k edge} found lock => ?_⟩
  · rcases (added.node id).mp present with new | present
    · exact beside id new (old (Graph.hasNode_of_node? matched.src))
    · exact old present
  · rcases added.only found with there | ⟨e, member, src, dest, _, _, rfl⟩
    · rw [Graph.edge?_eraseEdge] at there
      split at there
      · cases there
      · obtain ⟨key, named, present⟩ := solvable.key there lock
        exact ⟨key, named, stays present⟩
    · exact keys e member k src dest lock

theorem Solvable.replace_stateless (solvable : Solvable g) (inserted : Inserted g m spec bindings h)
    (stateless : ∀ e ∈ spec.edges, e.label.contains "state" = false)
    (through : Reached h m.edge.src → Reached h m.edge.dest)
    (beside : ∀ id ∈ bindings.map Prod.snd, Reached h m.edge.src → Reached h id) : Solvable h := by
  refine solvable.replace inserted through beside fun e member id src dest lock => ?_
  rw [isLocked_bound (stateless e member)] at lock
  cases lock

end

section

variable {m : MatchedEdge}

theorem solvable_insertChamber (solvable : Solvable g) {chamber : NodeId}
    (inserted : Inserted g m (insertChamber m) [("$chamber", chamber)] h) : Solvable h := by
  obtain ⟨srcId, src⟩ := inserted.src
  obtain ⟨destId, dest⟩ := inserted.dest
  have present : h.hasNode chamber = true := inserted.bound List.mem_cons_self
  have stateless : ∀ e ∈ (insertChamber m).edges, e.label.contains "state" = false := by
    intro e member
    simp only [insertChamber, List.mem_cons, List.not_mem_nil, or_false] at member
    rcases member with rfl | rfl
    · exact stateless_path _
    · exact stateless_path _
  have entering : Reached h m.edge.src → Reached h chamber :=
    inserted.along (.head _) (stateless _ (.head _)) (congrArg some srcId) rfl src present
  have leaving : Reached h chamber → Reached h m.edge.dest :=
    inserted.along (.tail _ (.head _)) (stateless _ (.tail _ (.head _))) rfl (congrArg some destId)
      present dest
  refine solvable.replace_stateless inserted stateless (fun reached => leaving (entering reached)) ?_
  intro id listed
  cases List.mem_singleton.mp listed
  exact entering

theorem solvable_forkPath (solvable : Solvable g) (inserted : Inserted g m (forkPath m) [] h) :
    Solvable h := by
  have stateless : ∀ e ∈ (forkPath m).edges, e.label.contains "state" = false := by
    intro e member
    simp only [forkPath, List.mem_cons, List.not_mem_nil, or_false, or_self] at member
    subst member
    exact stateless_deeper inserted.matched.stateless
  have through : Reached h m.edge.src → Reached h m.edge.dest :=
    inserted.along (.head _) (stateless _ (.head _)) rfl rfl inserted.src.2 inserted.dest.2
  refine solvable.replace_stateless inserted stateless through ?_
  intro id listed
  cases listed

theorem solvable_sideRoom (solvable : Solvable g) {side : NodeId}
    (inserted : Inserted g m (sideRoom m) [("$side", side)] h) : Solvable h := by
  obtain ⟨srcId, src⟩ := inserted.src
  have present : h.hasNode side = true := inserted.bound List.mem_cons_self
  have stateless : ∀ e ∈ (sideRoom m).edges, e.label.contains "state" = false := by
    intro e member
    simp only [sideRoom, List.mem_cons, List.not_mem_nil, or_false] at member
    rcases member with rfl | rfl
    · exact stateless_deeper inserted.matched.stateless
    · rfl
  have through : Reached h m.edge.src → Reached h m.edge.dest :=
    inserted.along (.head _) (stateless _ (.head _)) rfl rfl src inserted.dest.2
  have beside : Reached h m.edge.src → Reached h side :=
    inserted.along (.tail _ (.head _)) (stateless _ (.tail _ (.head _))) (congrArg some srcId) rfl src
      present
  refine solvable.replace_stateless inserted stateless through ?_
  intro id listed
  cases List.mem_singleton.mp listed
  exact beside

theorem keyRoom?_locked (key : NodeId) {e : EdgeSpec}
    (prereq : e.prereq = some (.ofList [("node_id", .str "$key")])) (id : EdgeId) (src dest : NodeId) :
    keyRoom? (e.bound [("$key", key)] id src dest) = some key := by
  have named : (e.bound [("$key", key)] id src dest).prereq.bind (fun p => p.string? "node_id") =
      some key.text := by
    simp only [EdgeSpec.bound, EdgeSpec.mapStrings, prereq, Option.map_some, Option.bind_some]
    rfl
  rw [keyRoom?, named]
  exact NodeId.parse?_text key

theorem solvable_lockDoor (solvable : Solvable g) {key : NodeId}
    (inserted : Inserted g m (lockDoor settings text m) [("$key", key)] h) : Solvable h := by
  obtain ⟨srcId, src⟩ := inserted.src
  have present : h.hasNode key = true := inserted.bound List.mem_cons_self
  have beside : Reached h m.edge.src → Reached h key :=
    inserted.along (.head _) (stateless_keyCorridor m.src) (congrArg some srcId) rfl src present
  have through : Reached h m.edge.src → Reached h m.edge.dest := by
    intro reached
    refine inserted.through (.tail _ (.head _)) rfl rfl src inserted.dest.2 (fun id _ => ?_) reached
    exact ⟨key, keyRoom?_locked key rfl id _ _, beside reached⟩
  refine solvable.replace inserted through ?_ ?_
  · intro id listed
    cases List.mem_singleton.mp listed
    exact beside
  · intro e member id src dest lock
    simp only [lockDoor, List.mem_cons, List.not_mem_nil, or_false] at member
    rcases member with rfl | rfl
    · rw [isLocked_bound (stateless_keyCorridor m.src)] at lock
      cases lock
    · exact ⟨key, keyRoom?_locked key rfl id src dest, present⟩

end

theorem isLocked_open (edge : Edge) : isLocked
    { edge with label := (Update.merge (.ofList [("state", .str "open")])).run edge.label } = false := by
  rw [isLocked, Update.run, Label.string?, Label.get?_merge]
  rfl

theorem Solvable.applyAt_graph (solvable : Solvable g) {pattern : EdgePattern}
    {build : MatchedEdge → SubgraphSpec}
    (undecided : ∀ {src dest edge}, pattern.accepts src dest edge g = true →
      isUndecidedPath edge = true)
    (production : ∀ {m h},
      Inserted g m (build m) ((g.eraseEdge m.edge.id).addNodes (build m).nodes).1 h → Solvable h)
    {site : Site} (listed : site ∈ g.matchingEdges pattern)
    (spared : SparesLast (g.applyAt (.graph pattern (some ∘ build)) site).1.addedNodes
      (g.applyAt (.graph pattern (some ∘ build)) site).1.addedEdges) :
    Solvable (g.applyAt (.graph pattern (some ∘ build)) site).2 := by
  obtain ⟨m, matched, rfl⟩ := matches_of_site listed
  simp only [Graph.applyAt] at spared ⊢
  rw [matched.replaceEdge] at spared ⊢
  exact production (solvable.inserted (matched.undecided (undecided matched.accepted)) spared)

theorem Solvable.applyAt_node (solvable : Solvable g) {condition : Condition Node} {update : Update} {site : Site}
    (listed : site ∈ g.sites (.node condition update)) : Solvable (g.applyAt (.node condition update) site).2 := by
  obtain ⟨id, node, there, _, same⟩ := Graph.mem_sites_node.mp listed
  rw [same, Graph.applyAt]
  split
  · exact solvable.modifyNodeLabel _ _
  · exact solvable

theorem Solvable.step {s : RunState} (solvable : Solvable s.graph)
    (spared : SparesLast (s.step (grammar settings text)).1.change.addedNodes
      (s.step (grammar settings text)).1.change.addedEdges) :
    Solvable (s.step (grammar settings text)).2.graph := by
  rcases RunState.step_cases (grammar settings text) s with
    ⟨_, same⟩ | ⟨set, c, found, listed, outcome, graph⟩
  · rw [same]
    exact solvable
  · obtain ⟨tier, inGrammar, inTier, site⟩ := Graph.mem_candidates? found listed
    rw [outcome] at spared
    rw [graph]
    unfold Graph.apply StepOutcome.change at *
    rcases kind_cases inGrammar inTier with kind | kind | kind | kind | kind | kind | kind
    all_goals rw [kind] at site spared ⊢
    · refine solvable.applyAt_graph (fun accepted => ?_) (solvable_insertChamber solvable) site spared
      exact (accepts_growable.mp accepted).1
    · refine solvable.applyAt_graph (fun accepted => ?_) (solvable_forkPath solvable) site spared
      exact (accepts_growable.mp accepted).1
    · refine solvable.applyAt_graph (fun accepted => ?_) (solvable_sideRoom solvable) site spared
      exact (accepts_growableOutside.mp accepted).2.1
    · exact solvable.applyAt_graph accepts_undecided.mp (solvable_lockDoor solvable) site spared
    · obtain ⟨m, matched, same⟩ := matches_of_site site
      rw [same, Graph.applyAt, if_pos (Graph.hasEdge_of_edge? matched.edge)]
      exact solvable.modifyEdgeLabel _ isLocked_open
    · exact solvable.applyAt_node site
    · exact solvable.applyAt_node site

theorem Solvable.follow {texts : List TextGenerator} {s : RunState} (solvable : Solvable s.graph)
    (spared : StepOutcome.SpareLast (s.follow (texts.map (grammar settings))).1) :
    Solvable (s.follow (texts.map (grammar settings))).2.graph := by
  refine RunState.follow_invariant (fun _ member s spared solvable => ?_) spared solvable
  obtain ⟨text, _, rfl⟩ := List.mem_map.mp member
  exact solvable.step spared

/-- In every dungeon that the grammar grows, with an answer of its own from the text generator at each
step, all rooms are reached, among them the goal, and the key to each locked door is reached without this
door. Only a dungeon that is deeper than 60 can use up the ids, not before `2 ^ 63 - 1` steps, and there they
must not run out. -/
theorem every_room_reached (settings : DungeonSettings) (texts : List TextGenerator)
    (generator : Generator)
    (spared : 60 < settings.maxDepth.toNat → 2 ^ 63 - 1 ≤ texts.length → StepOutcome.SpareLast
      (RunState.follow (texts.map (grammar settings)) ⟨seedGraph, generator⟩).1) :
    let g := (RunState.follow (texts.map (grammar settings)) ⟨seedGraph, generator⟩).2.graph
    (∀ id, g.hasNode id = true → Reached g id) ∧
      g.hasNode entrance = true ∧ g.hasNode goal = true ∧ Reached g goal ∧
      ∀ id door, g.edge? id = some door → isLocked door = true →
        ∃ key, keyRoom? door = some key ∧ g.hasNode key = true ∧ Reached (g.eraseEdge id) key := by
  intro g
  have solvable : Solvable g := Solvable.follow (s := ⟨seedGraph, generator⟩) solvable_seedGraph
    (spareLast_of_deep texts generator spared)
  refine ⟨fun _ present => solvable.reached present, solvable.entrance, solvable.goal,
    solvable.reached solvable.goal, fun id door found lock => ?_⟩
  obtain ⟨key, named, present⟩ := solvable.key found lock
  exact ⟨key, named, present, (solvable.reached present).without_door found lock named⟩

/-- A hundred steps of which every other one comes without a description. -/
theorem every_room_reached_alternating :
    let texts := (List.replicate 50 [TextGenerator.tagged, .silent]).flatten
    let run := RunState.follow (texts.map (grammar {})) ⟨seedGraph, .ofSeed 42⟩
    StepOutcome.SpareLast run.1 ∧ ∀ id, run.2.graph.hasNode id = true → Reached run.2.graph id :=
  have spared := spareLast_of_length (.ofSeed 42) (by simp)
  ⟨spared, (every_room_reached {} _ (.ofSeed 42) fun _ _ => spared).1⟩

end GraphGrammar.Dungeon
