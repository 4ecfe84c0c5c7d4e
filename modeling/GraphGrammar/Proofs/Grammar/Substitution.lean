import GraphGrammar.Grammar.Document
import GraphGrammar.Proofs.Engine.Diff
import GraphGrammar.Proofs.Graph.Binding
import GraphGrammar.Proofs.Id.Text
import GraphGrammar.Proofs.Label.Place

/-!
Templates as substitutions. The names in a template are replaced in two passes: the reserved ones when the
template is instantiated, and those of new nodes when the description is inserted. As ends of edges they are
looked up once. In texts the second pass sees what the first one wrote, which makes no difference as long as
no node of the template is named like an id. The two passes are then one substitution of all names at once.
-/

namespace GraphGrammar

open GraphGrammar.Graph (Adds SparesLast placeNodes placeEdges)

structure MatchedEdge.In (m : MatchedEdge) (g : Graph) : Prop where
  edge : g.edge? m.edge.id = some m.edge
  src : g.node? m.src.id = some m.src
  dest : g.node? m.dest.id = some m.dest
  srcEnd : m.edge.src = m.src.id
  destEnd : m.edge.dest = m.dest.id

namespace Graph

theorem exists_in_of_mem_matchingEdges {g : Graph} {pattern : EdgePattern} {site : Site}
    (listed : site ∈ g.matchingEdges pattern) :
    ∃ m : MatchedEdge, m.In g ∧ pattern.accepts m.src m.dest m.edge g = true ∧
      site = .edge m.edge.id m.src.id m.dest.id := by
  obtain ⟨id, edge, src, dest, found, hsrc, hdest, accepted, rfl⟩ := mem_matchingEdges.mp listed
  have srcEnd : src.id = edge.src := node_id hsrc
  have destEnd : dest.id = edge.dest := node_id hdest
  have here : edge.id = id := edge_id found
  subst here
  rw [← srcEnd] at hsrc ⊢
  rw [← destEnd] at hdest ⊢
  exact ⟨⟨src, dest, edge⟩, ⟨found, hsrc, hdest, srcEnd.symm, destEnd.symm⟩, accepted, rfl⟩

theorem replaceEdge_of_in {g : Graph} {m : MatchedEdge} (matched : m.In g)
    {build : MatchedEdge → Option SubgraphSpec} {spec : SubgraphSpec} (built : build m = some spec) :
    g.replaceEdge build m.edge.id m.src.id m.dest.id =
      ({ ((g.eraseEdge m.edge.id).insertSubgraph spec).1 with removedEdge := some m.edge.id },
        ((g.eraseEdge m.edge.id).insertSubgraph spec).2) := by
  simp only [replaceEdge, matched.edge, matched.src, matched.dest, built]

end Graph

/-- The node at an end of an edge: the given one if nothing is named, otherwise the one that the name stands
for, otherwise the one of which the name is the id. -/
def endOf? (node? : String → Option NodeId) (default : NodeId) : Option String → Option NodeId
  | none => some default
  | some name => (node? name).or (NodeId.parse? name)

/-- What the names in a template amount to after both passes, as ends of edges and as texts. The second pass
sees the texts that the first one left. -/
structure Bindings.ReadAs (bindings : Bindings) (m : MatchedEdge) (node? : String → Option NodeId)
    (text? : String → Option String) : Prop where
  node : ∀ name, (m.reserved? name).or (bindings.node? name) = node? name
  text : ∀ s, let first := ((m.reserved? s).map NodeId.text).getD s
    (bindings.text? first).getD first = (text? s).getD s

namespace EdgeTemplate

def ends? (e : EdgeTemplate) (m : MatchedEdge) (present : NodeId → Bool)
    (node? : String → Option NodeId) : Option (NodeId × NodeId) := do
  let src ← endOf? node? m.src.id e.src
  let dest ← endOf? node? m.dest.id e.dest
  if present src && present dest then some (src, dest) else none

/-- The edge that is written for a template. Its label is merged over the one of the matched edge if that
edge is continued, and its prerequisite is then the one of the matched edge if none is given. -/
def written (e : EdgeTemplate) (m : MatchedEdge) (text? : String → Option String) (id : EdgeId)
    (src dest : NodeId) : Edge where
  id
  src
  dest
  label := (if e.reemit then m.edge.label.merge e.label else e.label).mapStrings text?
  prereq := (e.prereq.or (if e.reemit then m.edge.prereq else none)).map (Label.mapStrings text?)

def writtenFrom (m : MatchedEdge) (present : NodeId → Bool) (node? : String → Option NodeId)
    (text? : String → Option String) (next : UInt64) : List EdgeTemplate → List Edge
  | [] => []
  | e :: rest =>
    match e.ends? m present node? with
    | some (src, dest) =>
      e.written m text? ⟨next⟩ src dest :: writtenFrom m present node? text? (next + 1) rest
    | none => writtenFrom m present node? text? next rest

variable {m : MatchedEdge} {g : Graph} {bindings : Bindings} {node? : String → Option NodeId}
  {text? : String → Option String}

theorem instantiate_ends (matched : m.In g) (e : EdgeTemplate) :
    (e.instantiate m).src = m.endpoint (.node m.src.id) e.src ∧
      (e.instantiate m).dest = m.endpoint (.node m.dest.id) e.dest := by
  unfold instantiate
  cases e.reemit with
  | true => exact ⟨congrArg (fun id => m.endpoint (.node id) e.src) matched.srcEnd,
      congrArg (fun id => m.endpoint (.node id) e.dest) matched.destEnd⟩
  | false => exact ⟨rfl, rfl⟩

theorem resolve?_endpoint (reads : bindings.ReadAs m node? text?) (default : NodeId)
    (name : Option String) :
    bindings.resolve? (m.endpoint (.node default) name) = endOf? node? default name := by
  cases name with
  | none => rfl
  | some name =>
    rw [endOf?, ← reads.node, MatchedEdge.endpoint]
    cases m.reserved? name with
    | some id => rfl
    | none => simp [Bindings.resolve?]

theorem ends?_instantiate (matched : m.In g) (reads : bindings.ReadAs m node? text?) (e : EdgeTemplate)
    (present : NodeId → Bool) :
    Graph.ends? present bindings (e.instantiate m) = e.ends? m present node? := by
  obtain ⟨src, dest⟩ := instantiate_ends matched e
  rw [Graph.ends?, src, dest, resolve?_endpoint reads, resolve?_endpoint reads, ends?]

/-- The two passes do to labels and prerequisites what they do to each text. -/
theorem bound_instantiate (reads : bindings.ReadAs m node? text?) (e : EdgeTemplate) (id : EdgeId)
    (src dest : NodeId) :
    (e.instantiate m).bound bindings id src dest = e.written m text? id src dest := by
  have label (l : Label) : (l.mapStrings fun s => (m.reserved? s).map NodeId.text).mapStrings
      bindings.text? = l.mapStrings text? := l.mapStrings_mapStrings reads.text
  have prereq (p : Option Label) : (p.map (Label.mapStrings fun s =>
      (m.reserved? s).map NodeId.text)).map (Label.mapStrings bindings.text?) =
        p.map (Label.mapStrings text?) := by
    rw [Option.map_map]
    exact congrArg (p.map ·) (funext label)
  unfold EdgeSpec.bound written instantiate
  cases e.reemit with
  | true =>
    exact congrArg₂ (Edge.mk id src dest) (label (m.edge.label.merge e.label))
      (prereq (e.prereq.or m.edge.prereq))
  | false => exact congrArg₂ (Edge.mk id src dest) (label e.label) (prereq (e.prereq.or none))

theorem placeEdges_instantiate (matched : m.In g) (reads : bindings.ReadAs m node? text?)
    (present : NodeId → Bool) (next : UInt64) (edges : List EdgeTemplate) :
    placeEdges present bindings next (edges.map fun e => e.instantiate m) =
      writtenFrom m present node? text? next edges := by
  induction edges generalizing next with
  | nil => rfl
  | cons e rest ih =>
    rw [List.map_cons, placeEdges, writtenFrom, ends?_instantiate matched reads]
    cases e.ends? m present node? with
    | none => exact ih next
    | some ends => exact congrArg₂ List.cons (bound_instantiate reads e _ _ _) (ih (next + 1))

end EdgeTemplate

namespace SubgraphTemplate

def newNodes (t : SubgraphTemplate) (g : Graph) : List Node := placeNodes g.ids.nextNode t.nodes

def named (t : SubgraphTemplate) (g : Graph) : Bindings :=
  (t.nodes.map NodeSpec.name).zip ((t.newNodes g).map Node.id)

def present (t : SubgraphTemplate) (g : Graph) (id : NodeId) : Bool :=
  g.hasNode id || ((t.newNodes g).map Node.id).contains id

def newEdges (t : SubgraphTemplate) (m : MatchedEdge) (g : Graph) (node? : String → Option NodeId)
    (text? : String → Option String) : List Edge :=
  EdgeTemplate.writtenFrom m (t.present g) node? text? g.ids.nextEdge t.edges

/-- The second graph is the first one with the matched edge replaced by the nodes of the template and by
those of its edges that have ends, and the change reports this. -/
structure Replaces (t : SubgraphTemplate) (m : MatchedEdge) (node? : String → Option NodeId)
    (text? : String → Option String) (g : Graph) (change : Applied) (h : Graph) : Prop where
  report : change = {
    removedEdge := some m.edge.id
    addedNodes := (t.newNodes g).map Node.id
    addedEdges := (t.newEdges m g node? text?).map Edge.id
    droppedEdges := t.edges.length - (t.newEdges m g node? text?).length }
  adds : Adds (g.eraseEdge m.edge.id) (t.newNodes g) (t.newEdges m g node? text?) h
  issued : g.ids.Issues change.addedNodes change.addedEdges h.ids
  fresh : ∀ node ∈ t.newNodes g, g.hasNode node.id = false

variable {g : Graph} {t : SubgraphTemplate} {d : RuleDocument} {site : Site}

theorem hasNode_addNodes_eq (sound : g.Sound) (spared : NodeId.last ∉ (g.addNodes t.nodes).1.map Prod.snd) :
    (g.addNodes t.nodes).2.hasNode = t.present g := by
  have adds := Graph.addNodes_adds sound t.nodes spared
  funext id
  rw [Bool.eq_iff_iff, adds.hasNode, present, Bool.or_eq_true, List.contains_iff_mem]
  rfl

theorem ruleKind_eq (kind : d.kind = "graph") :
    d.rule.kind = .graph d.lhs.edgePattern d.rhs.build := by
  simp [RuleDocument.rule, RuleDocument.ruleKind, kind]

theorem apply_rule {m : MatchedEdge} (kind : d.kind = "graph") (template : d.rhs.subgraph = some t)
    (matched : m.In g) :
    g.apply ⟨d.rule, .edge m.edge.id m.src.id m.dest.id⟩ =
      ({ ((g.eraseEdge m.edge.id).insertSubgraph (t.instantiate m)).1 with
          removedEdge := some m.edge.id },
        ((g.eraseEdge m.edge.id).insertSubgraph (t.instantiate m)).2) := by
  have built : d.rhs.build m = some (t.instantiate m) := by
    rw [RightSide.build, template]
    rfl
  rw [Graph.apply, ruleKind_eq kind]
  exact Graph.replaceEdge_of_in matched built

/-- The edges that an instance of a template adds are those that its edges write, for every reading of the
names that agrees with the two passes. -/
theorem placedEdges_instantiate {k : Graph} {m : MatchedEdge} (sound : k.Sound) (matched : m.In g)
    (spared : NodeId.last ∉ (k.addNodes t.nodes).1.map Prod.snd)
    {node? : String → Option NodeId} {text? : String → Option String}
    (reads : (t.named k).ReadAs m node? text?) :
    k.placedEdges (t.instantiate m) = t.newEdges m k node? text? := by
  have bound : (k.addNodes (t.instantiate m).nodes).1 = t.named k := Graph.addNodes_bindings k t.nodes
  have there : (k.addNodes (t.instantiate m).nodes).2.hasNode = t.present k :=
    hasNode_addNodes_eq sound spared
  rw [Graph.placedEdges, there, bound]
  exact EdgeTemplate.placeEdges_instantiate matched reads _ _ _

theorem apply_replaces {m : MatchedEdge} (sound : g.Sound) (kind : d.kind = "graph")
    (template : d.rhs.subgraph = some t) (matched : m.In g)
    (spared : let change := (g.apply ⟨d.rule, .edge m.edge.id m.src.id m.dest.id⟩).1
      SparesLast change.addedNodes change.addedEdges)
    {node? : String → Option NodeId} {text? : String → Option String}
    (reads : (t.named g).ReadAs m node? text?) :
    t.Replaces m node? text? g (g.apply ⟨d.rule, .edge m.edge.id m.src.id m.dest.id⟩).1
      (g.apply ⟨d.rule, .edge m.edge.id m.src.id m.dest.id⟩).2 := by
  rw [apply_rule kind template matched] at spared ⊢
  -- What is inserted goes into the graph without the edge, which has the same nodes and counters.
  have erased := sound.eraseEdge m.edge.id
  have adds := Graph.insertSubgraph_adds erased (t.instantiate m) spared
  have placed := placedEdges_instantiate erased matched spared.1 reads
  have ids := Graph.insertSubgraph_ids (g.eraseEdge m.edge.id) (t.instantiate m)
  have counts := (Graph.insertSubgraph_counts (g.eraseEdge m.edge.id) (t.instantiate m)).2
  rw [placed] at ids adds
  have dropped : ((g.eraseEdge m.edge.id).insertSubgraph (t.instantiate m)).1.droppedEdges =
      t.edges.length - (t.newEdges m g node? text?).length := by
    have described : (t.instantiate m).edges.length = t.edges.length := List.length_map _
    rw [ids.2, List.length_map, described] at counts
    exact Nat.eq_sub_of_add_eq' counts
  constructor
  · change Applied.mk none none _ _ _ _ = _
    rw [ids.1, ids.2, dropped]
    rfl
  · exact adds
  · exact Graph.insertSubgraph_issues (g.eraseEdge m.edge.id) (t.instantiate m) spared
  · intro node placed
    exact Graph.fresh_placeNodes erased spared placed

/-- Whether the nodes have names of their own that are no ids. -/
structure Plain (t : SubgraphTemplate) : Prop where
  distinct : (t.nodes.map NodeSpec.name).Nodup
  noId : ∀ n ∈ t.nodes, NodeId.parse? n.name = none

/-- What the names in a template stand for: the reserved ones for the matched ends, and those of its nodes
for the new nodes. -/
def standsFor (t : SubgraphTemplate) (m : MatchedEdge) (g : Graph) (name : String) : Option NodeId :=
  List.lookup name ((srcPlaceholder, m.src.id) :: (destPlaceholder, m.dest.id) :: t.named g)

theorem standsFor_eq (t : SubgraphTemplate) (m : MatchedEdge) (g : Graph) (name : String) :
    t.standsFor m g name = (m.reserved? name).or (List.lookup name (t.named g)) := by
  rw [standsFor, List.lookup_cons, List.lookup_cons, MatchedEdge.reserved?]
  by_cases src : name = srcPlaceholder
  · simp [src]
  · by_cases dest : name = destPlaceholder
    · simp [dest, destPlaceholder, srcPlaceholder]
    · rw [beq_false_of_ne src, beq_false_of_ne dest, if_neg src, if_neg dest]
      rfl

theorem keys_named (t : SubgraphTemplate) (g : Graph) :
    (t.named g).map Prod.fst = t.nodes.map NodeSpec.name := by
  have nodes : (t.newNodes g).length = t.nodes.length := by
    have ids := congrArg List.length (Graph.addNodes_ids g t.nodes)
    rw [List.length_map, List.length_map, Graph.length_addNodes] at ids
    exact ids.symm
  refine List.map_fst_zip (Nat.le_of_eq ?_)
  rw [List.length_map, List.length_map, nodes]

theorem node?_named_eq_none_iff {name : String} :
    (t.named g).node? name = none ↔ ∀ n ∈ t.nodes, n.name ≠ name := by
  simp [Bindings.node?_eq_none_iff, keys_named]

theorem Plain.readAs (plain : t.Plain) (m : MatchedEdge) (g : Graph) :
    (t.named g).ReadAs m (t.standsFor m g) fun name => (t.standsFor m g name).map NodeId.text := by
  have distinct := plain.distinct
  rw [← keys_named t g] at distinct
  have node (name : String) :
      (m.reserved? name).or ((t.named g).node? name) = t.standsFor m g name := by
    rw [standsFor_eq, Bindings.node?_eq_lookup distinct]
  refine ⟨node, fun s => ?_⟩
  intro first
  rw [← node]
  unfold first
  cases m.reserved? s with
  | none => rfl
  | some id =>
    have absent : (t.named g).node? id.text = none := by
      refine node?_named_eq_none_iff.mpr fun n member same => ?_
      have none := plain.noId n member
      rw [same, NodeId.parse?_text] at none
      cases none
    simp [Bindings.text?, absent]

/-- A graph rule of a document replaces the edge that it matched by its template, in which every name is
replaced at once by what it stands for. The ids must not run out. -/
theorem apply_substitutes (wellFormed : g.WellFormed) (kind : d.kind = "graph")
    (template : d.rhs.subgraph = some t) (plain : t.Plain) (listed : site ∈ g.sites d.rule.kind)
    (spared : SparesLast (g.apply ⟨d.rule, site⟩).1.addedNodes (g.apply ⟨d.rule, site⟩).1.addedEdges) :
    ∃ m : MatchedEdge, m.In g ∧ site = .edge m.edge.id m.src.id m.dest.id ∧
      t.Replaces m (t.standsFor m g) (fun name => (t.standsFor m g name).map NodeId.text) g
        (g.apply ⟨d.rule, site⟩).1 (g.apply ⟨d.rule, site⟩).2 := by
  rw [ruleKind_eq kind] at listed
  obtain ⟨m, matched, _, rfl⟩ := Graph.exists_in_of_mem_matchingEdges listed
  exact ⟨m, matched, rfl,
    apply_replaces wellFormed.sound kind template matched spared (plain.readAs m g)⟩

/-- An edge is split at a new node, one half of it is continued, and an edge to a missing node is dropped. Each
name in a label or a prerequisite has become an id. -/
theorem apply_substitutes_split :
    let before := Graph.history ∅ [.addNode ∅, .addNode ∅,
      .addEdge ⟨0⟩ ⟨1⟩ (.ofList [("type", .str "path")]) none]
    let t : SubgraphTemplate := ⟨[⟨"$mid", .ofList [("role", .str "chamber")]⟩], [
      ⟨false, none, some "$mid", .ofList [("from", .str "$src")], none⟩,
      ⟨true, some "$mid", none, .ofList [("by", .str "$mid")], some (.ofList [("node_id", .str "$dest")])⟩,
      ⟨false, none, some "n9", ∅, none⟩]⟩
    let d : RuleDocument := ⟨"split", "graph", 1, {}, { subgraph := some t }⟩
    let site : Site := .edge ⟨0⟩ ⟨0⟩ ⟨1⟩
    let change : Applied :=
      { removedEdge := some ⟨0⟩, addedNodes := [⟨2⟩], addedEdges := [⟨1⟩, ⟨2⟩], droppedEdges := 1 }
    before.graph.WellFormed ∧ t.Plain ∧ site ∈ before.graph.sites d.rule.kind ∧
      (before.graph.apply ⟨d.rule, site⟩).1 = change ∧
      (before.graph.apply ⟨d.rule, site⟩).2.nodes =
        [⟨⟨0⟩, ∅⟩, ⟨⟨1⟩, ∅⟩, ⟨⟨2⟩, .ofList [("role", .str "chamber")]⟩] ∧
      (before.graph.apply ⟨d.rule, site⟩).2.edges = [
        ⟨⟨1⟩, ⟨0⟩, ⟨2⟩, .ofList [("from", .str "n0")], none⟩,
        ⟨⟨2⟩, ⟨2⟩, ⟨1⟩, .ofList [("by", .str "n2"), ("type", .str "path")],
          some (.ofList [("node_id", .str "n1")])⟩] ∧
      ∃ m : MatchedEdge, m.In before.graph ∧ site = .edge m.edge.id m.src.id m.dest.id ∧
        t.Replaces m (t.standsFor m before.graph)
          (fun name => (t.standsFor m before.graph name).map NodeId.text) before.graph
          (before.graph.apply ⟨d.rule, site⟩).1 (before.graph.apply ⟨d.rule, site⟩).2 := by
  intro before t d site change
  have wellFormed : before.graph.WellFormed :=
    Graph.Origin.wellFormed .empty (by decide +kernel) (by decide +kernel)
  have plain : t.Plain := ⟨by decide, by decide +kernel⟩
  have listed : site ∈ before.graph.sites d.rule.kind := by decide +kernel
  have applied : (before.graph.apply ⟨d.rule, site⟩).1 = change := by decide +kernel
  have spared : SparesLast (before.graph.apply ⟨d.rule, site⟩).1.addedNodes
      (before.graph.apply ⟨d.rule, site⟩).1.addedEdges := by
    rw [applied]
    decide +kernel
  refine ⟨wellFormed, plain, listed, applied, rfl, ?_,
    apply_substitutes wellFormed rfl rfl plain listed spared⟩
  -- Numbers are evaluated in closed terms only.
  dsimp only [before, t, d, site]
  rfl

end SubgraphTemplate

end GraphGrammar
