import GraphGrammar.Proofs.Dungeon.Rules
import GraphGrammar.Proofs.Graph.Placement

/-!
What a step makes of a dungeon, record by record. It puts two edges and at most one room in the place of
an undecided path, or opens the path, or furnishes a room. Paths are split as long as one of them is not
deep enough, and only then are they locked or opened. No edge is dropped.
-/

namespace GraphGrammar.Dungeon

open GraphGrammar.Graph (Adds SparesLast placeNodes placeEdges ends?_eq_some_iff)

/-- What is put in the place of a path. The new node, if there is one, and the new edges have the given
ids. -/
inductive Production (settings : DungeonSettings) (text : TextGenerator) (m : MatchedEdge) (n : NodeId)
    (k k' : EdgeId) : List Node → List Edge → Prop where
  | chamber (shallow : depth m.edge < .ofNat settings.maxDepth.toNat) :
    Production settings text m n k k' [⟨n, room "chamber"⟩]
      [⟨k, m.edge.src, n, path (depth m.edge + 1), none⟩,
        ⟨k', n, m.edge.dest, path (depth m.edge + 1), none⟩]
  | fork (shallow : depth m.edge < .ofNat settings.maxDepth.toNat) :
    Production settings text m n k k' []
      [(deeper m).bound [] k m.edge.src m.edge.dest, (deeper m).bound [] k' m.edge.src m.edge.dest]
  | side (shallow : depth m.edge < .ofNat settings.maxDepth.toNat) :
    Production settings text m n k k' [⟨n, room "side"⟩]
      [(deeper m).bound [("$side", n)] k m.edge.src m.edge.dest,
        ⟨k', m.edge.src, n, .ofList [("type", .str "corridor")], none⟩]
  | lock (deep : ¬depth m.edge < .ofNat settings.maxDepth.toNat) :
    Production settings text m n k k' [⟨n, room "key"⟩]
      [⟨k, m.edge.src, n,
          (keyCorridor settings text m.src).mapStrings (Bindings.text? [("$key", n)]), none⟩,
        ⟨k', m.edge.src, m.edge.dest,
          (m.edge.label.merge (.ofList [("state", .str "locked")])).mapStrings
            (Bindings.text? [("$key", n)]),
          some (.ofList [("node_id", .str n.text)])⟩]
  | opened (deep : ¬depth m.edge < .ofNat settings.maxDepth.toNat) :
    Production settings text m n k k' []
      [⟨m.edge.id, m.edge.src, m.edge.dest, m.edge.label.merge (.ofList [("state", .str "open")]),
        m.edge.prereq⟩]

structure Replaced (g : Graph) (edge : Edge) (nodes : List Node) (edges : List Edge) (h : Graph) :
    Prop where
  found : g.edge? edge.id = some edge
  undecided : isUndecidedPath edge = true
  sound : h.Sound
  adds : Adds (g.eraseEdge edge.id) nodes edges h
  fresh : ∀ node ∈ nodes, g.hasNode node.id = false

inductive Furnishing (settings : DungeonSettings) (text : TextGenerator) (label : Label) :
    Label → Prop where
  | stocked (side : label.string? "role" = some "side") :
    Furnishing settings text label (label.merge (.ofList [("loot", chest.toValue)]))
  | described (undescribed : label.contains "described" = false) :
    Furnishing settings text label (describeRoom settings text label)

/-- What a step makes of a dungeon. -/
inductive Step (settings : DungeonSettings) (text : TextGenerator) (g : Graph) : Graph → Prop where
  | replace {m : MatchedEdge} {nodes : List Node} {edges : List Edge} {h : Graph}
    (production : Production settings text m g.ids.peekNode g.ids.peekEdge ⟨g.ids.nextEdge + 1⟩ nodes
      edges)
    (replaced : Replaced g m.edge nodes edges h) : Step settings text g h
  | furnish {id : NodeId} {node : Node} {f : Label → Label} (found : g.node? id = some node)
    (furnishing : Furnishing settings text node.label (f node.label)) :
    Step settings text g (g.modifyNodeLabel id f)

variable {settings : DungeonSettings} {text : TextGenerator} {g : Graph} {pattern : EdgePattern}
  {m : MatchedEdge}

section

variable (matched : Matches g pattern m)

include matched

theorem Matches.ends (specs : List NodeSpec) :
    m.src.id = m.edge.src ∧ m.dest.id = m.edge.dest ∧
      ((g.eraseEdge m.edge.id).addNodes specs).2.hasNode m.edge.src = true ∧
        ((g.eraseEdge m.edge.id).addNodes specs).2.hasNode m.edge.dest = true := by
  have stays {id : NodeId} (present : g.hasNode id = true) :
      (g.eraseEdge m.edge.id).hasNode id = true := present
  obtain ⟨src, dest⟩ := Graph.ends matched.edge
  exact ⟨Graph.node_id matched.src, Graph.node_id matched.dest,
    Graph.hasNode_addNodes (stays src) specs, Graph.hasNode_addNodes (stays dest) specs⟩

theorem placedEdges_insertChamber : (g.eraseEdge m.edge.id).placedEdges (insertChamber m) =
    [⟨g.ids.peekEdge, m.edge.src, g.ids.peekNode, path (depth m.edge + 1), none⟩,
      ⟨⟨g.ids.nextEdge + 1⟩, g.ids.peekNode, m.edge.dest, path (depth m.edge + 1), none⟩] := by
  obtain ⟨srcId, destId, src, dest⟩ := matched.ends (insertChamber m).nodes
  have chamber := (Graph.hasNode_addNode (g.eraseEdge m.edge.id) (room "chamber") _).mpr (.inl rfl)
  apply Graph.placeEdges_pair
  · exact ends?_eq_some_iff.mpr ⟨congrArg some srcId, rfl, src, chamber⟩
  · exact ends?_eq_some_iff.mpr ⟨rfl, congrArg some destId, chamber, dest⟩

theorem placedEdges_forkPath : (g.eraseEdge m.edge.id).placedEdges (forkPath m) =
    [(deeper m).bound [] g.ids.peekEdge m.edge.src m.edge.dest,
      (deeper m).bound [] ⟨g.ids.nextEdge + 1⟩ m.edge.src m.edge.dest] := by
  obtain ⟨_, _, src, dest⟩ := matched.ends (forkPath m).nodes
  apply Graph.placeEdges_pair
  · exact ends?_eq_some_iff.mpr ⟨rfl, rfl, src, dest⟩
  · exact ends?_eq_some_iff.mpr ⟨rfl, rfl, src, dest⟩

theorem placedEdges_sideRoom : (g.eraseEdge m.edge.id).placedEdges (sideRoom m) =
    [(deeper m).bound [("$side", g.ids.peekNode)] g.ids.peekEdge m.edge.src m.edge.dest,
      ⟨⟨g.ids.nextEdge + 1⟩, m.edge.src, g.ids.peekNode, .ofList [("type", .str "corridor")],
        none⟩] := by
  obtain ⟨srcId, _, src, dest⟩ := matched.ends (sideRoom m).nodes
  have side := (Graph.hasNode_addNode (g.eraseEdge m.edge.id) (room "side") _).mpr (.inl rfl)
  apply Graph.placeEdges_pair
  · exact ends?_eq_some_iff.mpr ⟨rfl, rfl, src, dest⟩
  · exact ends?_eq_some_iff.mpr ⟨congrArg some srcId, rfl, src, side⟩

theorem placedEdges_lockDoor : (g.eraseEdge m.edge.id).placedEdges (lockDoor settings text m) =
    [⟨g.ids.peekEdge, m.edge.src, g.ids.peekNode, (keyCorridor settings text m.src).mapStrings
        (Bindings.text? [("$key", g.ids.peekNode)]), none⟩,
      ⟨⟨g.ids.nextEdge + 1⟩, m.edge.src, m.edge.dest,
        (m.edge.label.merge (.ofList [("state", .str "locked")])).mapStrings
          (Bindings.text? [("$key", g.ids.peekNode)]),
        some (.ofList [("node_id", .str g.ids.peekNode.text)])⟩] := by
  obtain ⟨srcId, _, src, dest⟩ := matched.ends (lockDoor settings text m).nodes
  have key := (Graph.hasNode_addNode (g.eraseEdge m.edge.id) (room "key") _).mpr (.inl rfl)
  apply Graph.placeEdges_pair
  · exact ends?_eq_some_iff.mpr ⟨congrArg some srcId, rfl, src, key⟩
  · exact ends?_eq_some_iff.mpr ⟨rfl, rfl, src, dest⟩

end

def FullyGrown (settings : DungeonSettings) (g : Graph) : Prop :=
  ∀ {id : EdgeId} {edge : Edge}, g.edge? id = some edge → isUndecidedPath edge = true →
    ¬depth edge < .ofNat settings.maxDepth.toNat

theorem fullyGrown_of_tierCandidates
    (nothing : g.tierCandidates (growTier settings) = []) : FullyGrown settings g := by
  intro id edge found undecided shallow
  have site : .edge edge.id edge.src edge.dest ∈ g.matchingEdges (growable settings.maxDepth) :=
    site_of_edge found fun _ _ => accepts_growable.mpr ⟨undecided, shallow⟩
  let rule : Rule :=
    ⟨"grow/insert_chamber", 3, .graph (growable settings.maxDepth) (some ∘ insertChamber)⟩
  have candidate : (⟨rule, .edge edge.id edge.src edge.dest⟩ : Candidate) ∈
      g.tierCandidates (growTier settings) := Graph.mem_tierCandidates.mpr ⟨.head _, site⟩
  rw [nothing] at candidate
  cases candidate

/-- A rule after those of the first tier is applied only where no path is split any more. -/
theorem candidate_tier {set : CandidateSet} {c : Candidate}
    (found : g.candidates? (grammar settings text) = some set) (drawn : c ∈ set.candidates) :
    c.site ∈ g.sites c.rule.kind ∧ (c.rule ∈ (growTier settings).rules ∨ FullyGrown settings g ∧
      (c.rule ∈ (lockTier settings text).rules ∨ c.rule ∈ (furnishTier settings text).rules)) := by
  obtain ⟨earlier, tier, later, tiers, _, skipped, same, _⟩ := Graph.candidatesFrom_eq_some found
  rw [same] at drawn
  obtain ⟨inTier, site⟩ := Graph.mem_tierCandidates.mp drawn
  refine ⟨site, ?_⟩
  -- Only the tier that no other one precedes may be applied while paths can be split.
  cases earlier with
  | nil =>
    cases tiers
    exact .inl inTier
  | cons first rest =>
    have head : growTier settings = first := (List.cons.inj tiers).1
    have tail : [lockTier settings text, furnishTier settings text] = rest ++ tier :: later :=
      (List.cons.inj tiers).2
    have listed : tier ∈ [lockTier settings text, furnishTier settings text] := by simp [tail]
    refine .inr ⟨fullyGrown_of_tierCandidates (head ▸ skipped first (.head _)), ?_⟩
    simp only [List.mem_cons, List.not_mem_nil, or_false] at listed
    rcases listed with rfl | rfl
    · exact .inl inTier
    · exact .inr inTier

theorem step_graph (sound : g.Sound) {build : MatchedEdge → SubgraphSpec} {site : Site}
    (listed : site ∈ g.matchingEdges pattern)
    (spared : SparesLast (g.applyAt (.graph pattern (some ∘ build)) site).1.addedNodes
      (g.applyAt (.graph pattern (some ∘ build)) site).1.addedEdges)
    (produced : ∀ {m}, Matches g pattern m → isUndecidedPath m.edge = true ∧
      ∃ edges, (g.eraseEdge m.edge.id).placedEdges (build m) = edges ∧
        edges.length = (build m).edges.length ∧
        Production settings text m g.ids.peekNode g.ids.peekEdge ⟨g.ids.nextEdge + 1⟩
          (placeNodes g.ids.nextNode (build m).nodes) edges) :
    Step settings text g (g.applyAt (.graph pattern (some ∘ build)) site).2 ∧
      (g.applyAt (.graph pattern (some ∘ build)) site).1.droppedEdges = 0 := by
  obtain ⟨m, matched, rfl⟩ := matches_of_site listed
  obtain ⟨undecided, edges, placed, length, production⟩ := produced matched
  have erased := sound.eraseEdge m.edge.id
  simp only [Graph.applyAt] at spared ⊢
  rw [matched.replaceEdge] at spared ⊢
  have adds := Graph.insertSubgraph_adds erased (build m) spared
  rw [placed] at adds
  refine ⟨.replace production ⟨matched.edge, undecided, erased.insertSubgraph (build m) spared, adds, ?_⟩, ?_⟩
  · exact fun node placed => Graph.fresh_placeNodes erased spared placed
  · exact Graph.insertSubgraph_droppedEdges (placed ▸ length)

theorem step_open (sound : g.Sound) (grown : FullyGrown settings g) {site : Site}
    (listed : site ∈ g.matchingEdges undecided) :
    let kind := RuleKind.edge undecided (.merge (.ofList [("state", .str "open")]))
    Step settings text g (g.applyAt kind site).2 ∧ (g.applyAt kind site).1.droppedEdges = 0 := by
  obtain ⟨m, matched, rfl⟩ := matches_of_site listed
  have undecided := accepts_undecided.mp matched.accepted
  simp only [Graph.applyAt, Graph.hasEdge_of_edge? matched.edge, if_true]
  refine ⟨.replace (.opened (grown matched.edge undecided)) ⟨matched.edge, undecided, ?_, ?_, ?_⟩, trivial⟩
  · exact sound.modifyEdgeLabel _ _
  · exact .modifyEdgeLabel matched.edge (Update.merge _).run
  · intro node none
    cases none

theorem step_node {condition : Condition Node} {update : Update}
    (furnishing : ∀ {node}, condition.accepts node g = true →
      Furnishing settings text node.label (update.run node.label)) {site : Site}
    (listed : site ∈ g.sites (.node condition update)) :
    Step settings text g (g.applyAt (.node condition update) site).2 ∧
      (g.applyAt (.node condition update) site).1.droppedEdges = 0 := by
  obtain ⟨id, node, found, accepted, rfl⟩ := Graph.mem_sites_node.mp listed
  have here := Graph.node_id found
  subst here
  simp only [Graph.applyAt, Graph.hasNode_of_node? found, if_true]
  exact ⟨.furnish found (furnishing accepted), trivial⟩

theorem step_of_candidate (sound : g.Sound) {set : CandidateSet} {c : Candidate}
    (found : g.candidates? (grammar settings text) = some set) (drawn : c ∈ set.candidates)
    (spared : SparesLast (g.apply c).1.addedNodes (g.apply c).1.addedEdges) :
    Step settings text g (g.apply c).2 ∧ (g.apply c).1.droppedEdges = 0 := by
  obtain ⟨site, tier⟩ := candidate_tier found drawn
  obtain ⟨⟨name, weight, kind⟩, place⟩ := c
  unfold Graph.apply at spared ⊢
  simp only [growTier, lockTier, furnishTier, List.mem_cons, List.not_mem_nil, or_false,
    Rule.mk.injEq] at tier
  rcases tier with (⟨_, _, rfl⟩ | ⟨_, _, rfl⟩ | ⟨_, _, rfl⟩) |
    ⟨grown, (⟨_, _, rfl⟩ | ⟨_, _, rfl⟩) | ⟨_, _, rfl⟩ | ⟨_, _, rfl⟩⟩
  · refine step_graph sound site spared fun matched => ?_
    obtain ⟨undecided, shallow⟩ := accepts_growable.mp matched.accepted
    exact ⟨undecided, _, placedEdges_insertChamber matched, rfl, .chamber shallow⟩
  · refine step_graph sound site spared fun matched => ?_
    obtain ⟨undecided, shallow⟩ := accepts_growable.mp matched.accepted
    exact ⟨undecided, _, placedEdges_forkPath matched, rfl, .fork shallow⟩
  · refine step_graph sound site spared fun matched => ?_
    obtain ⟨_, undecided, shallow⟩ := accepts_growableOutside.mp matched.accepted
    exact ⟨undecided, _, placedEdges_sideRoom matched, rfl, .side shallow⟩
  · refine step_graph sound site spared fun matched => ?_
    have undecided := accepts_undecided.mp matched.accepted
    exact ⟨undecided, _, placedEdges_lockDoor matched, rfl, .lock (grown matched.edge undecided)⟩
  · exact step_open sound grown site
  · refine step_node (fun accepted => ?_) site
    exact .stocked (accepts_unstocked.mp accepted).1
  · refine step_node (fun accepted => ?_) site
    exact .described (accepts_undescribed.mp accepted).2

end GraphGrammar.Dungeon
