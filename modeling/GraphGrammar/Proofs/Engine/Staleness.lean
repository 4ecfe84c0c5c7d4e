import GraphGrammar.Proofs.Grammar.Substitution
import GraphGrammar.Proofs.Graph.Chronicle

/-!
Candidates that are out of date. No operation takes a node away or moves the ends of an edge, and the counters do not
return to an id. So what stands under the id of a site is what was found there, whatever was done to the graph in the
meantime, or the edge of the site is gone and the rule changes nothing.
-/

namespace GraphGrammar

def Site.In (g : Graph) : Site → Prop
  | .node id => ∃ node, g.node? id = some node ∧ node.id = id
  | .edge id src dest => ∃ m : MatchedEdge, m.In g ∧ m.edge.id = id ∧ m.src.id = src ∧ m.dest.id = dest

namespace Graph

/-- What a rule does at a site whose node or edge is in the graph. -/
inductive Acts (g : Graph) : RuleKind → Site → Applied → Graph → Prop where
  | node {condition : Condition Node} {update : Update} {node : Node} (found : g.node? node.id = some node) :
    Acts g (.node condition update) (.node node.id) { updatedNode := some node.id }
      (g.modifyNodeLabel node.id update.run)
  | edge {pattern : EdgePattern} {update : Update} {m : MatchedEdge} (found : m.In g) :
    Acts g (.edge pattern update) (.edge m.edge.id m.src.id m.dest.id) { updatedEdge := some m.edge.id }
      (g.modifyEdgeLabel m.edge.id update.run)
  | replace {pattern : EdgePattern} {build : MatchedEdge → Option SubgraphSpec} {m : MatchedEdge}
    {spec : SubgraphSpec} (found : m.In g) (built : build m = some spec) :
    Acts g (.graph pattern build) (.edge m.edge.id m.src.id m.dest.id)
      { ((g.eraseEdge m.edge.id).insertSubgraph spec).1 with removedEdge := some m.edge.id }
      ((g.eraseEdge m.edge.id).insertSubgraph spec).2
  | remove {pattern : EdgePattern} {build : MatchedEdge → Option SubgraphSpec} {m : MatchedEdge}
    (found : m.In g) (built : build m = none) :
    Acts g (.graph pattern build) (.edge m.edge.id m.src.id m.dest.id) { removedEdge := some m.edge.id }
      (g.eraseEdge m.edge.id)

variable {g h : Graph}

theorem exists_in {id : EdgeId} {edge : Edge} (found : g.edge? id = some edge) :
    ∃ m : MatchedEdge, m.In g ∧ m.edge = edge := by
  have named := edge_id found
  subst named
  obtain ⟨srcPresent, destPresent⟩ := ends found
  obtain ⟨src, srcFound⟩ := exists_node_of_hasNode srcPresent
  obtain ⟨dest, destFound⟩ := exists_node_of_hasNode destPresent
  have srcEnd := node_id srcFound
  have destEnd := node_id destFound
  rw [← srcEnd] at srcFound
  rw [← destEnd] at destFound
  exact ⟨⟨src, dest, edge⟩, ⟨found, srcFound, destFound, srcEnd.symm, destEnd.symm⟩, rfl⟩

theorem in_of_mem_sites {kind : RuleKind} {site : Site} (listed : site ∈ g.sites kind) :
    site.In g := by
  cases kind with
  | node condition update =>
    obtain ⟨id, node, found, _, rfl⟩ := mem_sites_node.mp listed
    have named := node_id found
    subst named
    exact ⟨node, found, rfl⟩
  | edge | graph =>
    obtain ⟨m, found, _, rfl⟩ := exists_in_of_mem_matchingEdges listed
    exact ⟨m, found, rfl, rfl, rfl⟩
  | unrecognized => cases listed

/-- A site stays in a graph unless its edge goes, as long as this edge does not enter again. -/
theorem Development.site_in_or_gone {P : Label → Prop} {nodes : List NodeId} {edges : List EdgeId}
    (development : Development P g nodes edges h) {site : Site} (there : site.In g)
    (outside : ∀ id src dest, site = .edge id src dest → id ∉ edges) :
    site.In h ∨ ∃ id src dest, site = .edge id src dest ∧ h.edge? id = none := by
  cases site with
  | node id =>
    obtain ⟨node, found, _⟩ := there
    obtain ⟨now, foundNow⟩ := exists_node_of_hasNode (development.hasNode_of_hasNode (hasNode_of_node? found))
    exact .inl ⟨now, foundNow, node_id foundNow⟩
  | edge id src dest =>
    cases found : h.edge? id with
    | none => exact .inr ⟨id, src, dest, rfl, found⟩
    | some now =>
      obtain ⟨m, before, rfl, rfl, rfl⟩ := there
      obtain ⟨k, after, rfl⟩ := exists_in found
      obtain ⟨old, same, srcKept, destKept⟩ := development.edge_ends (outside _ _ _ rfl) found
      cases before.edge.symm.trans same
      refine .inl ⟨k, after, edge_id found, ?_, ?_⟩
      · rw [← after.srcEnd, srcKept, before.srcEnd]
      · rw [← after.destEnd, destKept, before.destEnd]

theorem applyAt_acts {kind : RuleKind} {site : Site} (listed : site ∈ g.sites kind) (there : site.In h) :
    Acts h kind site (h.applyAt kind site).1 (h.applyAt kind site).2 := by
  cases kind with
  | node condition update =>
    obtain ⟨_, _, _, _, rfl⟩ := mem_sites_node.mp listed
    obtain ⟨node, found, named⟩ := there
    rw [← named] at found ⊢
    simp only [applyAt, hasNode_of_node? found, if_true]
    exact .node found
  | edge pattern update =>
    obtain ⟨_, _, _, _, _, _, _, _, rfl⟩ := mem_matchingEdges.mp listed
    obtain ⟨m, found, named, src, dest⟩ := there
    rw [← named, ← src, ← dest]
    simp only [applyAt, hasEdge_of_edge? found.edge, if_true]
    exact .edge found
  | graph pattern build =>
    obtain ⟨_, _, _, _, _, _, _, _, rfl⟩ := mem_matchingEdges.mp listed
    obtain ⟨m, found, named, src, dest⟩ := there
    rw [← named, ← src, ← dest]
    cases built : build m with
    | none =>
      simp only [applyAt, replaceEdge, found.edge, found.src, found.dest, built]
      exact .remove found built
    | some spec =>
      simp only [applyAt, replaceEdge_of_in found built]
      exact .replace found built
  | unrecognized => cases listed

theorem applyAt_of_edge?_eq_none {id : EdgeId} (gone : g.edge? id = none) (kind : RuleKind) (src dest : NodeId) :
    g.applyAt kind (.edge id src dest) = ({}, g) := by
  cases kind with
  | node | unrecognized => rfl
  | edge => simp [applyAt, hasEdge_eq, gone]
  | graph pattern build =>
    simp only [applyAt, replaceEdge, gone]
    split
    · next found => cases found
    · rfl

/-- The counter is past the edges of a sound graph, so none of their ids enters again by being given out. -/
theorem Sound.not_mem_history (sound : g.Sound) {operations : List Operation}
    (node : Entry.SpareLast (g.chronicle (operations.map .operate)).nodes)
    (edge : Entry.SpareLast (g.chronicle (operations.map .operate)).edges) {id : EdgeId}
    (present : g.hasEdge id = true) (brought : ⟨false, id.index⟩ ∉ (g.chronicle (operations.map .operate)).edges) :
    id ∉ (g.history operations).edges := by
  intro entered
  have ledger := (chronicled sound _ node edge).edge
  have listed : id.index ∈ (g.chronicle (operations.map .operate)).edges.map Entry.index := by
    rw [(g.chronicle_operate operations).2]
    exact List.mem_map_of_mem entered
  obtain ⟨⟨issued, _⟩, listed, rfl⟩ := List.mem_map.mp listed
  cases issued with
  | true => exact ledger.not_issued (sound.edge_counted present) listed
  | false => exact brought listed

/-- A candidate is safe after whatever was done to the graph in which it was found. It acts on the node, or on the edge
with the ends, that it was found at, or the edge is gone and it changes nothing at all. No counter may give out its
greatest id in the meantime, and the edge must not be inserted again by its id. -/
theorem stale_candidate_acts_or_rests (sound : g.Sound) {grammar : Grammar} {set : CandidateSet}
    (found : g.candidates? grammar = some set) {c : Candidate} (listed : c ∈ set.candidates)
    (operations : List Operation) (node : Entry.SpareLast (g.chronicle (operations.map .operate)).nodes)
    (edge : Entry.SpareLast (g.chronicle (operations.map .operate)).edges)
    (brought : ∀ id src dest, c.site = .edge id src dest →
      ⟨false, id.index⟩ ∉ (g.chronicle (operations.map .operate)).edges) :
    let later := (g.chronicle (operations.map .operate)).graph
    c.site.In g ∧
      (c.site.In later ∧ Acts later c.rule.kind c.site (later.apply c).1 (later.apply c).2 ∨
        ∃ id src dest, c.site = .edge id src dest ∧ later.edge? id = none ∧ later.apply c = ({}, later)) := by
  intro later
  obtain ⟨_, _, _, fits⟩ := mem_candidates? found listed
  have there := in_of_mem_sites fits
  have outside (id : EdgeId) (src dest : NodeId) (site : c.site = .edge id src dest) :
      id ∉ (g.history operations).edges := by
    obtain ⟨m, before, rfl, _, _⟩ : (Site.edge id src dest).In g := site ▸ there
    exact sound.not_mem_history node edge (hasEdge_of_edge? before.edge) (brought _ _ _ site)
  have same : later = (g.history operations).graph := (g.chronicle_operate operations).1
  have development := g.history_development operations
  rw [← same] at development
  refine ⟨there, ?_⟩
  rcases development.site_in_or_gone there outside with stays | ⟨id, src, dest, site, gone⟩
  · exact .inl ⟨stays, applyAt_acts fits stays⟩
  · refine .inr ⟨id, src, dest, site, gone, ?_⟩
    rw [apply, site]
    exact applyAt_of_edge?_eq_none gone c.rule.kind src dest

/-- Of two edges the first one is erased, and other edges come under new ids. The candidate at the first edge then does
nothing, and the one at the second edge still turns it. -/
theorem stale_candidate_acts_or_rests_after_erasure :
    let g := (history ∅ [.addNode ∅, .addNode ∅, .addEdge ⟨0⟩ ⟨1⟩ ∅ none, .addEdge ⟨1⟩ ⟨0⟩ ∅ none]).graph
    let turn : MatchedEdge → Option SubgraphSpec := fun m => some ⟨[], [⟨.node m.dest.id, .node m.src.id, ∅, none⟩]⟩
    let rule : Rule := ⟨"turn", 1, .graph {} turn⟩
    let first : Candidate := ⟨rule, .edge ⟨0⟩ ⟨0⟩ ⟨1⟩⟩
    let second : Candidate := ⟨rule, .edge ⟨1⟩ ⟨1⟩ ⟨0⟩⟩
    let operations : List Operation := [.eraseEdge ⟨0⟩, .addEdge ⟨0⟩ ⟨1⟩ ∅ none, .insertEdge ⟨⟨7⟩, ⟨1⟩, ⟨1⟩, ∅, none⟩,
      .step ⟨[⟨"only", [rule]⟩]⟩ (.ofSeed 7)]
    let later := (g.chronicle (operations.map .operate)).graph
    g.candidates? ⟨[⟨"only", [rule]⟩]⟩ = some ⟨0, [first, second]⟩ ∧ later.edge? ⟨0⟩ = none ∧
      later.apply first = ({}, later) ∧
      Acts later second.rule.kind second.site (later.apply second).1 (later.apply second).2 := by
  intro g turn rule first second operations later
  have sound : g.Sound :=
    (history_development ∅ [.addNode ∅, .addNode ∅, .addEdge ⟨0⟩ ⟨1⟩ ∅ none, .addEdge ⟨1⟩ ⟨0⟩ ∅ none]).sound
      (by decide +kernel) sound_empty
  have found : g.candidates? ⟨[⟨"only", [rule]⟩]⟩ = some ⟨0, [first, second]⟩ := by rfl
  have gone : later.edge? ⟨0⟩ = none := by decide +kernel
  have entries : (g.chronicle (operations.map .operate)).nodes = [] ∧
      (g.chronicle (operations.map .operate)).edges = [⟨true, 2⟩, ⟨false, 7⟩, ⟨true, 8⟩] := by
    decide +kernel
  have node : Entry.SpareLast (g.chronicle (operations.map .operate)).nodes := by
    rw [entries.1]
    decide
  have edge : Entry.SpareLast (g.chronicle (operations.map .operate)).edges := by
    rw [entries.2]
    decide
  have brought (c : Candidate) (either : c = first ∨ c = second) (id : EdgeId) (src dest : NodeId)
      (site : c.site = .edge id src dest) : ⟨false, id.index⟩ ∉ (g.chronicle (operations.map .operate)).edges := by
    rw [entries.2]
    rcases either with rfl | rfl <;> cases site <;> decide
  refine ⟨found, gone, ?_, ?_⟩
  · obtain ⟨_, ⟨⟨m, there, named, _⟩, _⟩ | ⟨_, _, _, _, _, same⟩⟩ :=
      stale_candidate_acts_or_rests sound found (c := first) (by simp) operations node edge (brought _ (.inl rfl))
    · rw [← named, there.edge] at gone
      cases gone
    · exact same
  · obtain ⟨_, ⟨_, acts⟩ | ⟨_, _, _, site, absent, _⟩⟩ :=
      stale_candidate_acts_or_rests sound found (c := second) (by simp) operations node edge (brought _ (.inr rfl))
    · exact acts
    · cases site
      have stays : later.hasEdge ⟨1⟩ = true := by decide +kernel
      rw [hasEdge_eq, absent] at stays
      cases stays

end Graph

end GraphGrammar
