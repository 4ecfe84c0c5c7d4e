import GraphGrammar.Proofs.Grammar.Substitution
import GraphGrammar.Proofs.Json.RoundTrip

/-!
Reserved names in templates of any kind. As an end of an edge a reserved name is always the matched node. In a
text it becomes the id of that node first, and the id is then taken for a name: if a node of the template is
named like the id, the text ends as the id of this node. So the two agree just as long as no node of the
template is named like the id of the matched one.
-/

namespace GraphGrammar

open GraphGrammar.Graph (SparesLast)

theorem NodeId.text_injective {a b : NodeId} (same : a.text = b.text) : a = b := by
  have read := congrArg parse? same
  rw [parse?_text, parse?_text] at read
  exact Option.some.inj read

namespace EdgeTemplate

/-- An edge has a node as its end where its template names it so, and a text in the place of each text of the
template that is the name. -/
structure Shows (e : EdgeTemplate) (name : String) (node : NodeId) (text : String) (edge : Edge) : Prop where
  src : e.src = some name → edge.src = node
  dest : e.dest = some name → edge.dest = node
  label : ∀ {place}, e.label.at? place = some (.str name) → edge.label.at? place = some (.str text)
  prereq : ∀ {p}, e.prereq = some p → ∃ q, edge.prereq = some q ∧
    ∀ {place}, p.at? place = some (.str name) → q.at? place = some (.str text)

variable {e : EdgeTemplate} {m : MatchedEdge} {present : NodeId → Bool} {node? : String → Option NodeId}
  {text? : String → Option String} {src dest node : NodeId} {name text : String}

theorem ends?_eq_some (ends : e.ends? m present node? = some (src, dest)) :
    endOf? node? m.src.id e.src = some src ∧ endOf? node? m.dest.id e.dest = some dest := by
  simp only [ends?, Option.bind_eq_bind, Option.bind_eq_some_iff] at ends
  obtain ⟨s, hs, d, hd, there⟩ := ends
  split at there
  · cases there
    exact ⟨hs, hd⟩
  · cases there

/-- The texts of a template stand in their places in the edge that is written, also when it is merged over
the matched one. -/
theorem written_shows (ends : e.ends? m present node? = some (src, dest))
    (named : node? name = some node) (replaced : text? name = some text) (id : EdgeId) :
    e.Shows name node text (e.written m text? id src dest) := by
  obtain ⟨hsrc, hdest⟩ := ends?_eq_some ends
  have moved {label : Label} {place : List Branch} (there : label.at? place = some (.str name)) :
      (label.mapStrings text?).at? place = some (.str text) := by
    rw [Label.at?_mapStrings, there]
    exact congrArg (fun s => some (Value.str s)) (congrArg (Option.getD · name) replaced)
  constructor
  · intro given
    rw [given, endOf?, named] at hsrc
    exact (Option.some.inj hsrc).symm
  · intro given
    rw [given, endOf?, named] at hdest
    exact (Option.some.inj hdest).symm
  · intro place there
    refine moved ?_
    cases e.reemit with
    | true => exact Label.at?_merge there m.edge.label
    | false => exact there
  · intro p given
    refine ⟨p.mapStrings text?, ?_, moved⟩
    rw [written, given]
    rfl

theorem writtenFrom_forall₂ (m : MatchedEdge) (present : NodeId → Bool) (node? : String → Option NodeId)
    (text? : String → Option String) (next : UInt64) (edges : List EdgeTemplate) :
    List.Forall₂ (fun e edge => e ∈ edges ∧ ∃ src dest, e.ends? m present node? = some (src, dest) ∧
        edge = e.written m text? edge.id src dest)
      (edges.filter fun e => (e.ends? m present node?).isSome)
      (writtenFrom m present node? text? next edges) := by
  induction edges generalizing next with
  | nil => exact .nil
  | cons e rest ih =>
    have later (next : UInt64) := (ih next).imp fun _ _ => And.imp_left (List.mem_cons_of_mem e)
    rw [List.filter_cons, writtenFrom]
    cases ends : e.ends? m present node? with
    | none => exact later next
    | some pair => exact .cons ⟨.head _, pair.1, pair.2, ends, rfl⟩ (later (next + 1))

end EdgeTemplate

namespace SubgraphTemplate

/-- What a name is as an end of an edge. The reserved names go before those of nodes. -/
def nodeNamed? (t : SubgraphTemplate) (m : MatchedEdge) (g : Graph) (name : String) : Option NodeId :=
  (m.reserved? name).or ((t.named g).node? name)

def shownId (t : SubgraphTemplate) (g : Graph) (id : NodeId) : String :=
  ((t.named g).text? id.text).getD id.text

/-- The text that takes the place of a text: a reserved name becomes an id first. -/
def shown? (t : SubgraphTemplate) (m : MatchedEdge) (g : Graph) (s : String) : Option String :=
  match m.reserved? s with
  | some id => some (t.shownId g id)
  | none => (t.named g).text? s

def edgesWithEnds (t : SubgraphTemplate) (m : MatchedEdge) (g : Graph) : List EdgeTemplate :=
  t.edges.filter fun e => (e.ends? m (t.present g) (t.nodeNamed? m g)).isSome

/-- The edges that a change reports are those of the template that have ends, in order, with the matched nodes
where the template has reserved names. In texts the given function writes them. -/
def ShowsReserved (t : SubgraphTemplate) (m : MatchedEdge) (g : Graph) (write : NodeId → String)
    (change : Applied) (h : Graph) : Prop :=
  ∃ edges : List Edge, edges.map Edge.id = change.addedEdges ∧
    (∀ edge ∈ edges, h.edge? edge.id = some edge) ∧
    List.Forall₂ (fun e edge => e.Shows srcPlaceholder m.src.id (write m.src.id) edge ∧
        e.Shows destPlaceholder m.dest.id (write m.dest.id) edge)
      (t.edgesWithEnds m g) edges

variable {g : Graph} {t : SubgraphTemplate} {d : RuleDocument} {site : Site}

theorem named_readAs (t : SubgraphTemplate) (m : MatchedEdge) (g : Graph) :
    (t.named g).ReadAs m (t.nodeNamed? m g) (t.shown? m g) := by
  refine ⟨fun _ => rfl, fun s => ?_⟩
  rw [shown?]
  cases m.reserved? s <;> rfl

theorem exists_node?_named {name : String} {n : NodeSpec} (member : n ∈ t.nodes) (same : n.name = name) :
    ∃ node ∈ t.newNodes g, (t.named g).node? name = some node.id := by
  obtain ⟨id, found⟩ : ∃ id, (t.named g).node? name = some id :=
    Option.ne_none_iff_exists'.mp fun absent => node?_named_eq_none_iff.mp absent n member same
  obtain ⟨i, there, _⟩ := Bindings.node?_eq_some_iff.mp found
  obtain ⟨node, new, rfl⟩ := List.mem_map.mp (List.of_mem_zip (List.mem_of_getElem? there)).2
  exact ⟨node, new, found⟩

/-- The id of a node that was there before stands in a text as it is if and only if no node of the template
is named like it. -/
theorem shownId_eq_text_iff (fresh : ∀ node ∈ t.newNodes g, g.hasNode node.id = false) {id : NodeId}
    (present : g.hasNode id = true) :
    t.shownId g id = id.text ↔ ∀ n ∈ t.nodes, n.name ≠ id.text := by
  constructor
  · intro kept n member same
    obtain ⟨node, new, bound⟩ := exists_node?_named (g := g) member same
    have replaced : t.shownId g id = node.id.text := by
      rw [shownId, Bindings.text?, bound]
      rfl
    have own : node.id = id := NodeId.text_injective (replaced.symm.trans kept)
    have absent := fresh node new
    rw [own, present] at absent
    cases absent
  · intro apart
    rw [shownId, Bindings.text?, node?_named_eq_none_iff.mpr apart]
    rfl

theorem Replaces.showsReserved {m : MatchedEdge} {change : Applied} {h : Graph}
    (replaces : t.Replaces m (t.nodeNamed? m g) (t.shown? m g) g change h) :
    t.ShowsReserved m g (t.shownId g) change h := by
  have distinct : destPlaceholder ≠ srcPlaceholder := by decide
  have src : m.reserved? srcPlaceholder = some m.src.id := if_pos rfl
  have dest : m.reserved? destPlaceholder = some m.dest.id := (if_neg distinct).trans (if_pos rfl)
  have shows {name : String} {id : NodeId} (reserved : m.reserved? name = some id) :
      t.nodeNamed? m g name = some id ∧ t.shown? m g name = some (t.shownId g id) := by
    rw [nodeNamed?, shown?, reserved]
    exact ⟨rfl, rfl⟩
  refine ⟨t.newEdges m g (t.nodeNamed? m g) (t.shown? m g), ?_, ?_, ?_⟩
  · rw [replaces.report]
  · intro edge member
    exact replaces.adds.new_edge member
  · refine (EdgeTemplate.writtenFrom_forall₂ m _ _ _ _ t.edges).imp ?_
    rintro e edge ⟨member, s, d, ends, made⟩
    rw [made]
    exact ⟨EdgeTemplate.written_shows ends (shows src).1 (shows src).2 _,
      EdgeTemplate.written_shows ends (shows dest).1 (shows dest).2 _⟩

/-- In the edges that a graph rule of a grammar document inserts, a reserved name stands for the matched node
at the ends, and in texts as well unless a node of the template is named like the id of the matched one. The
ids must not run out. -/
theorem reserved_names_stand_for (kind : d.kind = "graph") (template : d.rhs.subgraph = some t)
    (wellFormed : g.WellFormed) (listed : site ∈ g.sites d.rule.kind)
    (spared : SparesLast (g.apply ⟨d.rule, site⟩).1.addedNodes (g.apply ⟨d.rule, site⟩).1.addedEdges) :
    ∃ m : MatchedEdge, m.In g ∧ site = .edge m.edge.id m.src.id m.dest.id ∧
      t.ShowsReserved m g (t.shownId g) (g.apply ⟨d.rule, site⟩).1 (g.apply ⟨d.rule, site⟩).2 ∧
      ∀ id ∈ [m.src.id, m.dest.id], t.shownId g id = id.text ↔ ∀ n ∈ t.nodes, n.name ≠ id.text := by
  rw [ruleKind_eq kind] at listed
  obtain ⟨m, matched, _, rfl⟩ := Graph.exists_in_of_mem_matchingEdges listed
  have replaces := apply_replaces wellFormed.sound kind template matched spared (t.named_readAs m g)
  refine ⟨m, matched, rfl, replaces.showsReserved, ?_⟩
  intro id member
  refine shownId_eq_text_iff replaces.fresh ?_
  simp only [List.mem_cons, List.not_mem_nil, or_false] at member
  rcases member with rfl | rfl
  · exact Graph.hasNode_of_node? matched.src
  · exact Graph.hasNode_of_node? matched.dest

/-- A grammar that splits an edge at a node named `n0` and names the matched nodes in a text. -/
def namesakeText : String :=
  "\x7b\"subgrammars\":[\x7b\"rules\":[\x7b\"kind\":\"graph\",\"rhs\":\x7b\"subgraph\":\x7b\"nodes\":" ++
    "[\x7b\"id\":\"n0\"\x7d],\"edges\":[\x7b\"src\":\"$src\",\"dest\":\"n0\"," ++
    "\"label\":\x7b\"from\":\"$src\",\"to\":\"$dest\"\x7d\x7d]\x7d\x7d\x7d]\x7d]\x7d"

def namesakeTemplate : SubgraphTemplate :=
  ⟨[⟨"n0", ∅⟩],
    [⟨false, some "$src", some "n0", .ofList [("from", .str "$src"), ("to", .str "$dest")], none⟩]⟩

def namesakeRule : RuleDocument := ⟨"", "graph", 1, {}, { subgraph := some namesakeTemplate }⟩

def namesakeGraph : Graph :=
  (Graph.history ∅ [.addNode ∅, .addNode ∅, .addEdge ⟨0⟩ ⟨1⟩ ∅ none]).graph

def namesakeMatch : MatchedEdge := ⟨⟨⟨0⟩, ∅⟩, ⟨⟨1⟩, ∅⟩, ⟨⟨0⟩, ⟨0⟩, ⟨1⟩, ∅, none⟩⟩

def namesakeTree : Json.Tree :=
  .object [("subgrammars", .array [.object [("rules", .array [.object [("kind", .string "graph"),
    ("rhs", .object [("subgraph", .object [("nodes", .array [.object [("id", .string "n0")]]),
      ("edges", .array [.object [("src", .string "$src"), ("dest", .string "n0"),
        ("label", .object [("from", .string "$src"), ("to", .string "$dest")])]])])])]])]])]

theorem ofText_namesakeText : GrammarDocument.ofText namesakeText = .ok ⟨[⟨"", [namesakeRule]⟩]⟩ := by
  have text : namesakeTree.render = namesakeText := by decide +kernel
  have within : namesakeTree.Within Json.Numeral.Scans Json.greatestDepth := by
    simp [namesakeTree, Json.greatestDepth]
  have back : readGrammar namesakeTree = .ok ⟨[⟨"", [namesakeRule]⟩]⟩ := rfl
  have read := (Json.readText_of_scans (by decide +kernel) within back).1
  rw [text] at read
  exact read

theorem namesakeGraph_wellFormed : namesakeGraph.WellFormed :=
  Graph.Origin.wellFormed .empty (by decide +kernel) (by decide +kernel)

theorem namesakeMatch_in : namesakeMatch.In namesakeGraph := by
  constructor <;> rfl

/-- The text of the source becomes the id of the new node, and the text of the destination stays. -/
theorem reserved_names_stand_for_namesake :
    let change := (namesakeGraph.apply ⟨namesakeRule.rule, .edge ⟨0⟩ ⟨0⟩ ⟨1⟩⟩).1
    let after := (namesakeGraph.apply ⟨namesakeRule.rule, .edge ⟨0⟩ ⟨0⟩ ⟨1⟩⟩).2
    GrammarDocument.ofText namesakeText = .ok ⟨[⟨"", [namesakeRule]⟩]⟩ ∧ namesakeGraph.WellFormed ∧
      Site.edge ⟨0⟩ ⟨0⟩ ⟨1⟩ ∈ namesakeGraph.sites namesakeRule.rule.kind ∧
      SparesLast change.addedNodes change.addedEdges ∧
      namesakeTemplate.shownId namesakeGraph ⟨0⟩ = "n2" ∧
      namesakeTemplate.shownId namesakeGraph ⟨1⟩ = "n1" ∧
      ∃ m : MatchedEdge, m.In namesakeGraph ∧ Site.edge ⟨0⟩ ⟨0⟩ ⟨1⟩ = .edge m.edge.id m.src.id m.dest.id ∧
        namesakeTemplate.ShowsReserved m namesakeGraph (namesakeTemplate.shownId namesakeGraph) change
          after ∧
        ∀ id ∈ [m.src.id, m.dest.id], namesakeTemplate.shownId namesakeGraph id = id.text ↔
          ∀ n ∈ namesakeTemplate.nodes, n.name ≠ id.text := by
  have listed : Site.edge ⟨0⟩ ⟨0⟩ ⟨1⟩ ∈ namesakeGraph.sites namesakeRule.rule.kind := by decide +kernel
  have spared : SparesLast
      (namesakeGraph.apply ⟨namesakeRule.rule, .edge ⟨0⟩ ⟨0⟩ ⟨1⟩⟩).1.addedNodes
      (namesakeGraph.apply ⟨namesakeRule.rule, .edge ⟨0⟩ ⟨0⟩ ⟨1⟩⟩).1.addedEdges := by decide +kernel
  exact ⟨ofText_namesakeText, namesakeGraph_wellFormed, listed, spared, by decide +kernel, by decide +kernel,
    reserved_names_stand_for rfl rfl namesakeGraph_wellFormed listed spared⟩

/-- One edge has the matched source as its end and another node in its text, where its template has the same
reserved name twice. -/
theorem reserved_text_is_other_node :
    let change := (namesakeGraph.apply ⟨namesakeRule.rule, .edge ⟨0⟩ ⟨0⟩ ⟨1⟩⟩).1
    let after := (namesakeGraph.apply ⟨namesakeRule.rule, .edge ⟨0⟩ ⟨0⟩ ⟨1⟩⟩).2
    GrammarDocument.ofText namesakeText = .ok ⟨[⟨"", [namesakeRule]⟩]⟩ ∧ namesakeGraph.WellFormed ∧
      namesakeMatch.In namesakeGraph ∧
      after.edge? ⟨1⟩ =
        some ⟨⟨1⟩, ⟨0⟩, ⟨2⟩, .ofList [("from", .str "n2"), ("to", .str "n1")], none⟩ ∧
      ¬namesakeTemplate.ShowsReserved namesakeMatch namesakeGraph NodeId.text change after := by
  have inserted : (namesakeGraph.apply ⟨namesakeRule.rule, .edge ⟨0⟩ ⟨0⟩ ⟨1⟩⟩).2.edge? ⟨1⟩ =
      some ⟨⟨1⟩, ⟨0⟩, ⟨2⟩, .ofList [("from", .str "n2"), ("to", .str "n1")], none⟩ := by rfl
  have added : (namesakeGraph.apply ⟨namesakeRule.rule, .edge ⟨0⟩ ⟨0⟩ ⟨1⟩⟩).1.addedEdges = [⟨1⟩] := by
    decide +kernel
  have templates : namesakeTemplate.edgesWithEnds namesakeMatch namesakeGraph = namesakeTemplate.edges := by
    rfl
  refine ⟨ofText_namesakeText, namesakeGraph_wellFormed, namesakeMatch_in, inserted, ?_⟩
  rintro ⟨edges, ids, found, shows⟩
  rw [templates] at shows
  obtain ⟨edge, rest, ⟨src, _⟩, _, rfl⟩ := List.forall₂_cons_left_iff.mp shows
  rw [added] at ids
  have here : edge.id = ⟨1⟩ := (List.cons.inj ids).1
  have there := found edge (.head _)
  rw [here, inserted] at there
  have claimed : edge.label.at? [.key "from"] = some (.str (NodeId.text ⟨0⟩)) := src.label rfl
  rw [← Option.some.inj there] at claimed
  have written : (Label.ofList [("from", .str "n2"), ("to", .str "n1")]).at? [.key "from"] =
      some (.str "n2") := by rfl
  have same : some (Value.str "n2") = some (.str (NodeId.text ⟨0⟩)) := written.symm.trans claimed
  have texts : "n2" = NodeId.text ⟨0⟩ := Value.str.inj (Option.some.inj same)
  exact absurd texts (by decide +kernel)

end SubgraphTemplate

end GraphGrammar
