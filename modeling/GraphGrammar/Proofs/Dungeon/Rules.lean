import GraphGrammar.Dungeon.Grammar
import GraphGrammar.Proofs.Engine.Growth
import GraphGrammar.Proofs.Graph.Placement
import GraphGrammar.Proofs.Label.Document

/-!
The rules of the dungeon grammar, what they write and what their matches look like. The labels that they write
fit a document, since one more than a finite depth is finite. Every rule that replaces an edge or decides it
takes one without a state.
-/

namespace GraphGrammar.Dungeon

open GraphGrammar.Graph (Adds)

variable {settings : DungeonSettings} {text : TextGenerator} {g : Graph}

def entrance : NodeId := ⟨0⟩

def goal : NodeId := ⟨1⟩

def firstRooms : Graph := (((∅ : Graph).addNode (room "entrance")).2.addNode (room "goal")).2

theorem seedGraph_added : firstRooms.addEdge ⟨0⟩ ⟨1⟩ (path 0) none = .ok (⟨0⟩, seedGraph) := by
  have src : firstRooms.hasNode ⟨0⟩ = true :=
    (Graph.hasNode_addNode ..).mpr (.inr ((Graph.hasNode_addNode ..).mpr (.inl rfl)))
  have dest : firstRooms.hasNode ⟨1⟩ = true := (Graph.hasNode_addNode ..).mpr (.inl rfl)
  rw [Graph.addEdge_of_present (path 0) none ⟨src, dest⟩]
  rfl

theorem seedGraph_development {P : Label → Prop} (entrance : P (room "entrance"))
    (goal : P (room "goal")) (way : P (path 0)) :
    Graph.Development P ∅ [⟨0⟩, ⟨1⟩] [⟨0⟩] seedGraph := by
  have noPrereq : ∀ p ∈ (none : Option Label), P p := by
    intro p absent
    cases absent
  exact .step (.addNode ∅ entrance) (.step (.addNode _ goal)
    (.of_mutation (.addEdge way noPrereq seedGraph_added)))

theorem seedGraph_adds : Adds ∅ [⟨entrance, room "entrance"⟩, ⟨goal, room "goal"⟩]
    [⟨⟨0⟩, entrance, goal, path 0, none⟩] seedGraph := by
  have first : Adds ∅ _ _ ((∅ : Graph).addNode (room "entrance")).2 := .addNode _ rfl
  have second : Adds _ _ _ firstRooms := .addNode _ rfl
  have third : Adds firstRooms _ _ seedGraph := .addEdge seedGraph_added rfl
  exact (first.trans second).trans third

theorem found_node_seedGraph {id : NodeId} {node : Node} (found : seedGraph.node? id = some node) :
    node ∈ [⟨entrance, room "entrance"⟩, ⟨goal, room "goal"⟩] ∧ node.id = id := by
  rcases seedGraph_adds.found_node.mp found with old | new
  · rw [Graph.node?_empty] at old
    cases old
  · exact new

theorem found_edge_seedGraph {id : EdgeId} {edge : Edge} (found : seedGraph.edge? id = some edge) :
    edge = ⟨⟨0⟩, entrance, goal, path 0, none⟩ := by
  rcases seedGraph_adds.found_edge.mp found with old | ⟨new, _⟩
  · rw [Graph.edge?_empty] at old
    cases old
  · exact List.mem_singleton.mp new

theorem sound_seedGraph : seedGraph.Sound := by
  have development : Graph.Development (fun _ => True) ∅ [entrance, goal] [⟨0⟩] seedGraph :=
    seedGraph_development trivial trivial trivial
  exact development.sound (by decide) Graph.sound_empty

theorem kind_cases {tier : Tier} {rule : Rule} (inGrammar : tier ∈ (grammar settings text).tiers)
    (inTier : rule ∈ tier.rules) :
    rule.kind = .graph (growable settings.maxDepth) (some ∘ insertChamber) ∨
    rule.kind = .graph (growable settings.maxDepth) (some ∘ forkPath) ∨
    rule.kind = .graph (growableOutside settings.maxDepth) (some ∘ sideRoom) ∨
    rule.kind = .graph undecided (some ∘ lockDoor settings text) ∨
    rule.kind = .edge undecided (.merge (.ofList [("state", .str "open")])) ∨
    rule.kind = .node unstocked (.merge (.ofList [("loot", chest.toValue)])) ∨
    rule.kind = .node undescribed (.apply (describeRoom settings text)) := by
  simp only [grammar, List.mem_cons, List.not_mem_nil, or_false] at inGrammar
  rcases inGrammar with rfl | rfl | rfl
  · simp only [growTier, List.mem_cons, List.not_mem_nil, or_false] at inTier
    rcases inTier with rfl | rfl | rfl
    · exact .inl rfl
    · exact .inr (.inl rfl)
    · exact .inr (.inr (.inl rfl))
  · simp only [lockTier, List.mem_cons, List.not_mem_nil, or_false] at inTier
    rcases inTier with rfl | rfl
    · exact .inr (.inr (.inr (.inl rfl)))
    · exact .inr (.inr (.inr (.inr (.inl rfl))))
  · simp only [furnishTier, List.mem_cons, List.not_mem_nil, or_false] at inTier
    rcases inTier with rfl | rfl
    · exact .inr (.inr (.inr (.inr (.inr (.inl rfl)))))
    · exact .inr (.inr (.inr (.inr (.inr (.inr rfl)))))

theorem grammar_growsBy : (grammar settings text).GrowsBy 1 2 := by
  intro tier inGrammar rule inTier
  rcases kind_cases inGrammar inTier with kind | kind | kind | kind | kind | kind | kind
  all_goals rw [kind]
  · rintro m spec ⟨⟩
    exact ⟨Nat.le_refl 1, Nat.le_refl 2⟩
  · rintro m spec ⟨⟩
    exact ⟨Nat.zero_le 1, Nat.le_refl 2⟩
  · rintro m spec ⟨⟩
    exact ⟨Nat.le_refl 1, Nat.le_refl 2⟩
  · rintro m spec ⟨⟩
    exact ⟨Nat.le_refl 1, Nat.le_refl 2⟩
  · trivial
  · trivial
  · trivial

/-- Kinds of labels and of values such that the rules stay within them. -/
structure Admits (P : Label → Prop) (V : Value → Prop) : Prop where
  empty : P ∅
  insert : ∀ {label key value}, P label → V value → P (label.insert key value)
  merge : ∀ {label patch}, P label → P patch → P (label.merge patch)
  text : ∀ s, V (.str s)
  flag : ∀ b, V (.bool b)
  start : V (.num 0)
  level : ∀ edge : Edge, P edge.label → V (.num (depth edge + 1))
  chest : V chest.toValue

namespace Admits

variable {P : Label → Prop} {V : Value → Prop} (admits : Admits P V)

include admits

theorem single (key : String) {value : Value} (ok : V value) : P (.ofList [(key, value)]) :=
  admits.insert admits.empty ok

theorem pair {key key' : String} {value value' : Value} (ok : V value) (ok' : V value') :
    P (.ofList [(key, value), (key', value')]) :=
  admits.insert (admits.insert admits.empty ok) ok'

theorem room (role : String) : P (room role) := admits.pair (admits.text _) (admits.text _)

theorem path {depth : Number} (ok : V (.num depth)) : P (path depth) := admits.pair (admits.text _) ok

theorem describe (line : Except TextError String) {label : Label} (ok : P label) :
    P (describe line label) := by
  unfold Dungeon.describe
  split
  · exact admits.insert ok (admits.text _)
  · exact ok

theorem deeper {m : MatchedEdge} (ok : m.edge.Allowed P) : P (deeper m).label :=
  admits.merge ok.label (admits.single "depth" (admits.level m.edge ok.label))

theorem keyCorridor (src : Node) : P (keyCorridor settings text src) :=
  admits.describe _ (admits.pair (admits.text _) (admits.text _))

omit admits in
theorem two_edges {nodes : List NodeSpec} {e e' : EdgeSpec} (ok : ∀ n ∈ nodes, P n.label)
    (first : P e.label ∧ ∀ p ∈ e.prereq, P p) (second : P e'.label ∧ ∀ p ∈ e'.prereq, P p) :
    (SubgraphSpec.mk nodes [e, e']).Allowed P where
  node := ok
  edge := List.forall_mem_cons.mpr ⟨first.1, List.forall_mem_singleton.mpr second.1⟩
  prereq k member := by
    rcases List.mem_cons.mp member with rfl | member
    · exact first.2
    · cases List.mem_singleton.mp member
      exact second.2

theorem keeps : (grammar settings text).Keeps P := by
  intro tier inGrammar rule inTier
  have noPrereq : ∀ p ∈ (none : Option Label), P p := by
    intro p absent
    cases absent
  rcases kind_cases inGrammar inTier with kind | kind | kind | kind | kind | kind | kind
  all_goals rw [kind]
  · rintro m spec ok ⟨⟩
    have way := admits.path (admits.level m.edge ok.edge.label)
    exact two_edges (List.forall_mem_singleton.mpr (admits.room _)) ⟨way, noPrereq⟩ ⟨way, noPrereq⟩
  · rintro m spec ok ⟨⟩
    have way := admits.deeper ok.edge
    exact two_edges (fun _ member => nomatch member) ⟨way, ok.edge.prereq⟩ ⟨way, ok.edge.prereq⟩
  · rintro m spec ok ⟨⟩
    have corridor := admits.single "type" (admits.text "corridor")
    exact two_edges (List.forall_mem_singleton.mpr (admits.room _))
      ⟨admits.deeper ok.edge, ok.edge.prereq⟩ ⟨corridor, noPrereq⟩
  · rintro m spec ok ⟨⟩
    have locked := admits.merge ok.edge.label (admits.single "state" (admits.text "locked"))
    have prereq : ∀ p ∈ some (Label.ofList [("node_id", .str "$key")]), P p := by
      rintro p ⟨⟩
      exact admits.single _ (admits.text _)
    exact two_edges (List.forall_mem_singleton.mpr (admits.room _))
      ⟨admits.keyCorridor m.src, noPrereq⟩ ⟨locked, prereq⟩
  · exact fun label ok => admits.merge ok (admits.single _ (admits.text _))
  · exact fun label ok => admits.merge ok (admits.single _ admits.chest)
  · exact fun label ok => admits.insert (admits.describe _ ok) (admits.flag _)

theorem seedGraph : seedGraph.Allowed P :=
  (seedGraph_development (admits.room _) (admits.room _) (admits.path admits.start)).allowed
    Graph.allowed_empty

end Admits

theorem depth_isFinite {levels : Nat} {edge : Edge} (ok : edge.label.Storable (levels + 1)) :
    (depth edge).isFinite = true := by
  have values := Label.within_iff.mp ok
  unfold depth Label.number? Label.get?
  cases found : Entries.find? "depth" edge.label.entries with
  | none => exact Number.isFinite_zero
  | some v =>
    have value := Entries.within_of_find? values found
    cases value with
    | num finite => exact finite
    | bool | str | list | map => exact Number.isFinite_zero

theorem admits_storable (levels : Nat) :
    Admits (Label.Storable (levels + 2)) (Value.Storable (levels + 1)) where
  empty := Label.within_empty
  insert label value := Label.within_insert label value _
  merge label patch := Label.within_merge label patch
  text s := .str s
  flag b := .bool b
  start := .num Number.isFinite_zero
  level _ ok := .num (Number.isFinite_add_one (depth_isFinite ok))
  chest := by
    have values : ∀ e ∈ [("kind", Value.str "chest"), ("opened", .bool false)],
        e.2.Storable levels :=
      List.forall_mem_cons.mpr ⟨.str _, List.forall_mem_singleton.mpr (.bool _)⟩
    exact Label.within_ofList values

section

variable {m : MatchedEdge}

theorem stateless_path (depth : Number) : (path depth).contains "state" = false := by
  rfl

theorem stateless_deeper (stateless : m.edge.label.contains "state" = false) :
    (deeper m).label.contains "state" = false :=
  (Label.contains_merge_of_ne m.edge.label _ (by decide)).trans stateless

theorem stateless_keyCorridor (src : Node) :
    (keyCorridor settings text src).contains "state" = false := by
  unfold keyCorridor describe
  split
  · rw [Label.contains, Label.get?_insert]
    rfl
  · rfl

theorem number?_deeper (m : MatchedEdge) :
    (deeper m).label.number? "depth" = some (depth m.edge + 1) := by
  have read : (deeper m).label.get? "depth" = some (.num (depth m.edge + 1)) :=
    Label.get?_merge_single m.edge.label "depth" _ "depth"
  rw [Label.number?, read]
  rfl

theorem contains_locked (m : MatchedEdge) : ((EdgeSpec.reemit m.edge).merged
    (.ofList [("state", .str "locked")])).label.contains "state" = true :=
  Label.contains_merge_self m.edge.label "state" _

theorem string?_keyCorridor (src : Node) :
    (keyCorridor settings text src).string? "type" = some "corridor" := by
  unfold keyCorridor describe
  split
  · rw [Label.string?, Label.get?_insert, if_neg (by decide)]
    rfl
  · rfl

theorem type_merged {label : Label} (type : label.string? "type" = some "path") {key : String}
    {value : Value} (other : key ≠ "type") {f : String → Option String}
    (unbound : f "path" = none) :
    ((label.merge (.ofList [(key, value)])).mapStrings f).string? "type" = some "path" := by
  rw [Label.string?_mapStrings, Label.string?_merge_of_ne label value other, type]
  simp [unbound]

theorem get?_describe (line : Except TextError String) (label : Label) {key : String}
    (other : "description" ≠ key) : (describe line label).get? key = label.get? key := by
  unfold describe
  split
  · rw [Label.get?_insert, if_neg other]
  · rfl

theorem get?_describeRoom (label : Label) {key : String} (other : "description" ≠ key)
    (apart : "described" ≠ key) :
    (describeRoom settings text label).get? key = label.get? key := by
  rw [describeRoom, Label.get?_insert, if_neg apart, get?_describe _ _ other]

end

theorem accepts_undecided {src dest : Node} {edge : Edge} :
    undecided.accepts src dest edge g = true ↔ isUndecidedPath edge = true := by
  simp [undecided, EdgePattern.accepts, Condition.accepts]

theorem accepts_growable {maxDepth : UInt32} {src dest : Node} {edge : Edge} :
    (growable maxDepth).accepts src dest edge g = true ↔
      isUndecidedPath edge = true ∧ depth edge < .ofNat maxDepth.toNat := by
  simp [growable, EdgePattern.accepts, Condition.accepts]

theorem accepts_growableOutside {maxDepth : UInt32} {src dest : Node} {edge : Edge} :
    (growableOutside maxDepth).accepts src dest edge g = true ↔
      src.label.string? "role" ≠ some "side" ∧ isUndecidedPath edge = true ∧
        depth edge < .ofNat maxDepth.toNat := by
  simp [growableOutside, growable, EdgePattern.accepts, Condition.accepts]

theorem accepts_unstocked {node : Node} : unstocked.accepts node g = true ↔
    node.label.string? "role" = some "side" ∧ node.label.contains "loot" = false := by
  simp [unstocked, Condition.accepts]

theorem accepts_undescribed {node : Node} : undescribed.accepts node g = true ↔
    node.label.string? "type" = some "room" ∧ node.label.contains "described" = false := by
  simp [undescribed, Condition.accepts]

theorem isUndecidedPath_iff {edge : Edge} : isUndecidedPath edge = true ↔
    edge.label.string? "type" = some "path" ∧ edge.label.contains "state" = false := by
  simp [isUndecidedPath, isPath]

theorem undecided_deeper {m : MatchedEdge} (undecided : isUndecidedPath m.edge = true)
    (bindings : Bindings) (unbound : bindings.text? "path" = none) (id : EdgeId) (src dest : NodeId) :
    isUndecidedPath ((deeper m).bound bindings id src dest) = true ∧
      depth ((deeper m).bound bindings id src dest) = depth m.edge + 1 := by
  obtain ⟨type, stateless⟩ := isUndecidedPath_iff.mp undecided
  have read := (Label.number?_mapStrings bindings.text? _ "depth").trans (number?_deeper m)
  refine ⟨isUndecidedPath_iff.mpr ⟨type_merged type (by decide) unbound, ?_⟩,
    congrArg (Option.getD · 0) read⟩
  exact (Label.contains_mapStrings ..).trans (stateless_deeper stateless)

/-- An edge of a graph with its ends, which a pattern accepts. -/
structure Matches (g : Graph) (pattern : EdgePattern) (m : MatchedEdge) : Prop where
  edge : g.edge? m.edge.id = some m.edge
  src : g.node? m.edge.src = some m.src
  dest : g.node? m.edge.dest = some m.dest
  accepted : pattern.accepts m.src m.dest m.edge g = true

structure Undecided (g : Graph) (m : MatchedEdge) : Prop where
  edge : g.edge? m.edge.id = some m.edge
  src : g.node? m.edge.src = some m.src
  dest : g.node? m.edge.dest = some m.dest
  stateless : m.edge.label.contains "state" = false

variable {pattern : EdgePattern} {m : MatchedEdge}

theorem matches_of_site {site : Site} (listed : site ∈ g.matchingEdges pattern) :
    ∃ m, Matches g pattern m ∧ site = .edge m.edge.id m.edge.src m.edge.dest := by
  obtain ⟨id, edge, src, dest, found, hsrc, hdest, accepted, same⟩ := Graph.mem_matchingEdges.mp listed
  have here := Graph.edge_id found
  subst here
  exact ⟨⟨src, dest, edge⟩, ⟨found, hsrc, hdest, accepted⟩, same⟩

theorem matches_of_edge {id : EdgeId} {edge : Edge} (found : g.edge? id = some edge)
    (accepted : ∀ src dest, pattern.accepts src dest edge g = true) :
    ∃ m, Matches g pattern m ∧ m.edge = edge := by
  have here := Graph.edge_id found
  subst here
  obtain ⟨srcPresent, destPresent⟩ := Graph.ends found
  obtain ⟨src, hsrc⟩ := Graph.exists_node_of_hasNode srcPresent
  obtain ⟨dest, hdest⟩ := Graph.exists_node_of_hasNode destPresent
  exact ⟨⟨src, dest, edge⟩, ⟨found, hsrc, hdest, accepted src dest⟩, rfl⟩

theorem Matches.site (matched : Matches g pattern m) :
    .edge m.edge.id m.edge.src m.edge.dest ∈ g.matchingEdges pattern :=
  Graph.mem_matchingEdges.mpr ⟨m.edge.id, m.edge, m.src, m.dest, matched.edge, matched.src,
    matched.dest, matched.accepted, rfl⟩

theorem site_of_edge {id : EdgeId} {edge : Edge} (found : g.edge? id = some edge)
    (accepted : ∀ src dest, pattern.accepts src dest edge g = true) :
    .edge edge.id edge.src edge.dest ∈ g.matchingEdges pattern := by
  obtain ⟨m, matched, rfl⟩ := matches_of_edge found accepted
  exact matched.site

theorem Matches.undecided (matched : Matches g pattern m) (undecided : isUndecidedPath m.edge = true) :
    Undecided g m :=
  ⟨matched.edge, matched.src, matched.dest, (isUndecidedPath_iff.mp undecided).2⟩

theorem Matches.replaceEdge (matched : Matches g pattern m) (build : MatchedEdge → SubgraphSpec) :
    let inserted := (g.eraseEdge m.edge.id).insertSubgraph (build m)
    g.replaceEdge (some ∘ build) m.edge.id m.edge.src m.edge.dest =
      ({ inserted.1 with removedEdge := some m.edge.id }, inserted.2) := by
  unfold Graph.replaceEdge
  rw [matched.src, matched.dest, matched.edge]
  rfl

end GraphGrammar.Dungeon
