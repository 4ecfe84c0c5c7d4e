import GraphGrammar.Proofs.Engine.Diff
import GraphGrammar.Proofs.Graph.Binding
import GraphGrammar.Proofs.Label.Texts

/-!
What a description means, and that inserting it makes just this of it. A name means the last described node that is
declared under it, else the node of which it is the id. An edge is there if both its ends are nodes of the graph or
described ones, and names in its texts give way to ids, once. It does not matter how names are chosen: they may be
declared twice, read like ids, or be the very ids that the new nodes get.
-/

namespace GraphGrammar

open GraphGrammar.Graph (Adds SparesLast placeNodes placeEdges)

namespace SubgraphSpec

def names (spec : SubgraphSpec) : List String := spec.nodes.map NodeSpec.name

/-- A name is bound to the last node that declares it, where the described nodes are numbered from `first` on. -/
def Binds (spec : SubgraphSpec) (first : Nat) (name : String) (id : NodeId) : Prop :=
  ∃ i, spec.names[i]? = some name ∧ id.index.toNat = first + i ∧
    ∀ j : Nat, i < j → spec.names[j]? ≠ some name

/-- The node that an end of an edge means, be it there or not. -/
inductive Resolves (spec : SubgraphSpec) (first : Nat) : Endpoint → NodeId → Prop
  | node (id : NodeId) : Resolves spec first (.node id) id
  | bound {name : String} {id : NodeId} (binds : spec.Binds first name id) :
    Resolves spec first (.placeholder name) id
  | read {name : String} {id : NodeId} (unbound : name ∉ spec.names) (read : NodeId.parse? name = some id) :
    Resolves spec first (.placeholder name) id

inductive Writes (spec : SubgraphSpec) (first : Nat) : String → String → Prop
  | bound {name : String} {id : NodeId} (binds : spec.Binds first name id) : Writes spec first name id.text
  | kept {text : String} (unbound : text ∉ spec.names) : Writes spec first text text

/-- The second label is the first one with its texts written, each of them once, and with nothing else changed. -/
structure Rewrites (spec : SubgraphSpec) (first : Nat) (label written : Label) : Prop where
  frame : written.frame = label.frame
  texts : List.Forall₂ (spec.Writes first) label.texts written.texts

structure Describes (spec : SubgraphSpec) (first : Nat) (e : EdgeSpec) (edge : Edge) : Prop where
  src : spec.Resolves first e.src edge.src
  dest : spec.Resolves first e.dest edge.dest
  label : spec.Rewrites first e.label edge.label
  prereq : Option.Rel (spec.Rewrites first) e.prereq edge.prereq

/-- The described edges with both ends present are the given ones, in order, and the others are counted. -/
inductive Places (spec : SubgraphSpec) (first : Nat) (present : NodeId → Prop) :
    List EdgeSpec → List Edge → Nat → Prop
  | nil : Places spec first present [] [] 0
  | placed {e : EdgeSpec} {edge : Edge} {rest : List EdgeSpec} {edges : List Edge} {dropped : Nat}
      (described : spec.Describes first e edge) (ends : present edge.src ∧ present edge.dest)
      (later : Places spec first present rest edges dropped) :
    Places spec first present (e :: rest) (edge :: edges) dropped
  | dropped {e : EdgeSpec} {rest : List EdgeSpec} {edges : List Edge} {dropped : Nat}
      (endless : ∀ {src dest}, spec.Resolves first e.src src → spec.Resolves first e.dest dest →
        ¬(present src ∧ present dest))
      (later : Places spec first present rest edges dropped) :
    Places spec first present (e :: rest) edges (dropped + 1)

/-- The second graph is the first one with the described nodes and edges. They are new, they have the next ids in
order, and the change reports them. Everything else is as it was. -/
structure Realized (spec : SubgraphSpec) (g : Graph) (nodes : List Node) (edges : List Edge)
    (change : Applied) (h : Graph) : Prop where
  labels : nodes.map Node.label = spec.nodes.map NodeSpec.label
  places : spec.Places g.ids.nextNode.toNat (fun id => g.hasNode id = true ∨ id ∈ nodes.map Node.id)
    spec.edges edges change.droppedEdges
  report : change = {
    addedNodes := nodes.map Node.id
    addedEdges := edges.map Edge.id
    droppedEdges := change.droppedEdges }
  issued : g.ids.Issues change.addedNodes change.addedEdges h.ids
  adds : Adds g nodes edges h
  newNode : ∀ node ∈ nodes, g.hasNode node.id = false
  newEdge : ∀ edge ∈ edges, g.hasEdge edge.id = false

variable {spec : SubgraphSpec} {first : Nat}

theorem Places.length_add {present : NodeId → Prop} {specs : List EdgeSpec} {edges : List Edge} {dropped : Nat}
    (places : spec.Places first present specs edges dropped) : edges.length + dropped = specs.length := by
  induction places with
  | nil => rfl
  | placed _ _ _ ih => simp [← ih, Nat.add_right_comm]
  | dropped _ _ ih => simp [← ih, Nat.add_assoc]

end SubgraphSpec

structure Bindings.Of (bindings : Bindings) (spec : SubgraphSpec) (first : Nat) : Prop where
  bound : ∀ {name id}, bindings.node? name = some id ↔ spec.Binds first name id
  unbound : ∀ {name}, bindings.node? name = none ↔ name ∉ spec.names

namespace Bindings.Of

variable {bindings : Bindings} {spec : SubgraphSpec} {first : Nat}

theorem resolve?_eq_some_iff (binds : bindings.Of spec first) {e : Endpoint} {id : NodeId} :
    bindings.resolve? e = some id ↔ spec.Resolves first e id := by
  cases e with
  | node other =>
    constructor
    · rintro ⟨⟩
      exact .node _
    · rintro ⟨⟩
      rfl
  | placeholder name =>
    rw [resolve?]
    cases found : bindings.node? name with
    | none =>
      have unbound := binds.unbound.mp found
      constructor
      · exact .read unbound
      · intro resolves
        cases resolves with
        | bound named =>
          rw [binds.bound.mpr named] at found
          cases found
        | read _ read => exact read
    | some other =>
      have named := binds.bound.mp found
      constructor
      · rintro ⟨⟩
        exact .bound named
      · intro resolves
        cases resolves with
        | bound named => exact found.symm.trans (binds.bound.mpr named)
        | read unbound _ =>
          rw [binds.unbound.mpr unbound] at found
          cases found

theorem writes (binds : bindings.Of spec first) (s : String) :
    spec.Writes first s ((bindings.text? s).getD s) := by
  rw [text?]
  cases found : bindings.node? s with
  | none => exact .kept (binds.unbound.mp found)
  | some id => exact .bound (binds.bound.mp found)

theorem rewrites (binds : bindings.Of spec first) (label : Label) :
    spec.Rewrites first label (label.mapStrings bindings.text?) := by
  constructor
  · exact label.frame_mapStrings _
  · rw [Label.texts_mapStrings, List.forall₂_map_right_iff]
    exact List.forall₂_same.mpr fun s _ => binds.writes s

theorem describes (binds : bindings.Of spec first) {e : EdgeSpec} {src dest : NodeId}
    (hsrc : bindings.resolve? e.src = some src) (hdest : bindings.resolve? e.dest = some dest) (id : EdgeId) :
    spec.Describes first e (e.bound bindings id src dest) where
  src := binds.resolve?_eq_some_iff.mp hsrc
  dest := binds.resolve?_eq_some_iff.mp hdest
  label := binds.rewrites e.label
  prereq := by
    rw [EdgeSpec.bound, EdgeSpec.mapStrings]
    cases e.prereq with
    | none => exact .none
    | some p => exact .some (binds.rewrites p)

theorem places (binds : bindings.Of spec first) (present : NodeId → Bool) (next : UInt64)
    (specs : List EdgeSpec) :
    ∃ dropped, spec.Places first (fun id => present id = true) specs
      (placeEdges present bindings next specs) dropped := by
  induction specs generalizing next with
  | nil => exact ⟨0, .nil⟩
  | cons e rest ih =>
    rw [placeEdges]
    cases ends : Graph.ends? present bindings e with
    | none =>
      obtain ⟨dropped, later⟩ := ih next
      refine ⟨dropped + 1, .dropped (fun {src dest} hsrc hdest there => ?_) later⟩
      have both := Graph.ends?_eq_some_iff.mpr
        ⟨binds.resolve?_eq_some_iff.mpr hsrc, binds.resolve?_eq_some_iff.mpr hdest, there⟩
      rw [ends] at both
      cases both
    | some pair =>
      obtain ⟨src, dest⟩ := pair
      obtain ⟨hsrc, hdest, there⟩ := Graph.ends?_eq_some_iff.mp ends
      obtain ⟨dropped, later⟩ := ih (next + 1)
      exact ⟨dropped, .placed (binds.describes hsrc hdest _) there later⟩

end Bindings.Of

namespace Graph

theorem map_label_placeNodes (next : UInt64) (specs : List NodeSpec) :
    (placeNodes next specs).map Node.label = specs.map NodeSpec.label := by
  induction specs generalizing next with
  | nil => rfl
  | cons n rest ih => simp [placeNodes, ih]

theorem addNodes_names (g : Graph) (specs : List NodeSpec) :
    (g.addNodes specs).1.map Prod.fst = specs.map NodeSpec.name := by
  induction specs generalizing g with
  | nil => rfl
  | cons n rest ih => simp [addNodes_cons, ih]

theorem addNodes_of (g : Graph) (spec : SubgraphSpec)
    (spared : NodeId.last ∉ (g.addNodes spec.nodes).1.map Prod.snd) :
    (g.addNodes spec.nodes).1.Of spec g.ids.nextNode.toNat := by
  have names : (g.addNodes spec.nodes).1.map Prod.fst = spec.names := g.addNodes_names spec.nodes
  have at_iff (i : Nat) (name : String) (id : NodeId) :
      (g.addNodes spec.nodes).1[i]? = some (name, id) ↔
        spec.names[i]? = some name ∧ id.index.toNat = g.ids.nextNode.toNat + i := by
    rw [addNodes_bindings, List.getElem?_zip_eq_some, ← addNodes_ids,
      (g.addNodes_issues spec.nodes spared).getElem?_nodes, List.length_map, length_addNodes]
    refine and_congr_right fun named => and_iff_right ?_
    simpa using (List.getElem?_eq_some_iff.mp named).1
  constructor
  · intro name id
    simp only [Bindings.node?_eq_some_iff, SubgraphSpec.Binds, at_iff, names, and_assoc]
  · intro name
    rw [Bindings.node?_eq_none_iff, names]

/-- Inserting a description puts into the graph what it means, and reports it. The ids must not run out. -/
theorem insertSubgraph_realizes {g : Graph} (wellFormed : g.WellFormed) (spec : SubgraphSpec)
    (spared : SparesLast (g.insertSubgraph spec).1.addedNodes (g.insertSubgraph spec).1.addedEdges) :
    ∃ nodes edges, spec.Realized g nodes edges (g.insertSubgraph spec).1 (g.insertSubgraph spec).2 := by
  have sound := wellFormed.sound
  have ids := insertSubgraph_ids g spec
  have present : (fun id => (g.addNodes spec.nodes).2.hasNode id = true) = fun id =>
      g.hasNode id = true ∨ id ∈ (placeNodes g.ids.nextNode spec.nodes).map Node.id :=
    funext fun id => propext ((addNodes_adds sound spec.nodes spared.1).hasNode id)
  obtain ⟨dropped, places⟩ := (g.addNodes_of spec spared.1).places (g.addNodes spec.nodes).2.hasNode
    g.ids.nextEdge spec.edges
  have count : (g.insertSubgraph spec).1.droppedEdges = dropped := by
    have all := (insertSubgraph_counts g spec).2
    have sum := places.length_add
    rw [ids.2, List.length_map] at all
    exact Nat.add_left_cancel (all.trans sum.symm)
  rw [present, ← count] at places
  refine ⟨placeNodes g.ids.nextNode spec.nodes, g.placedEdges spec, ?_⟩
  constructor
  · exact map_label_placeNodes _ spec.nodes
  · exact places
  · rw [← ids.1, ← ids.2]
    rfl
  · exact insertSubgraph_issues g spec spared
  · exact insertSubgraph_adds sound spec spared
  · exact fun node placed => fresh_placeNodes sound spared placed
  · intro edge placed
    have listed := List.mem_map_of_mem (f := Edge.id) placed
    rw [← ids.2] at listed
    have issued := (insertSubgraph_issues g spec spared).mem_edges listed
    exact Bool.eq_false_iff.mpr fun there => UInt64.not_lt.mpr issued.1 (wellFormed.edge_below there)

/-- A name that is declared twice, one that is the id of a new node, and an end at a node that is missing. The text
that takes the place of `$a` is a name as well, and stays. -/
theorem insertSubgraph_realizes_namesakes :
    let g := (history ∅ [.addNode ∅, .addNode ∅, .addEdge ⟨0⟩ ⟨1⟩ ∅ none]).graph
    let spec : SubgraphSpec := ⟨[⟨"n4", ∅⟩, ⟨"$a", ∅⟩, ⟨"$a", .ofList [("role", .str "$a")]⟩], [
      ⟨.placeholder "$a", .placeholder "n4", .ofList [("via", .list [.str "$a", .str "n4", .str "n0"])],
        some (.ofList [("node_id", .str "n4")])⟩,
      ⟨.node ⟨9⟩, .placeholder "$a", ∅, none⟩,
      ⟨.placeholder "n0", .placeholder "n3", ∅, none⟩]⟩
    let change : Applied :=
      { addedNodes := [⟨2⟩, ⟨3⟩, ⟨4⟩], addedEdges := [⟨1⟩, ⟨2⟩], droppedEdges := 1 }
    (g.WellFormed ∧ SparesLast change.addedNodes change.addedEdges) ∧
      (g.insertSubgraph spec).1 = change ∧
      (g.insertSubgraph spec).2.edge? ⟨1⟩ = some ⟨⟨1⟩, ⟨4⟩, ⟨2⟩,
        .ofList [("via", .list [.str "n4", .str "n2", .str "n0"])], some (.ofList [("node_id", .str "n2")])⟩ ∧
      ∃ nodes edges, spec.Realized g nodes edges change (g.insertSubgraph spec).2 := by
  intro g spec change
  have wellFormed : g.WellFormed := Origin.wellFormed .empty (by decide +kernel) (by decide +kernel)
  have report : (g.insertSubgraph spec).1 = change := by decide +kernel
  have spared : SparesLast change.addedNodes change.addedEdges := by decide +kernel
  have inserted : (g.insertSubgraph spec).2.edge? ⟨1⟩ = some ⟨⟨1⟩, ⟨4⟩, ⟨2⟩,
      .ofList [("via", .list [.str "n4", .str "n2", .str "n0"])], some (.ofList [("node_id", .str "n2")])⟩ := by
    dsimp only [g, spec]
    rfl
  have realized := insertSubgraph_realizes wellFormed spec (by rwa [report])
  rw [report] at realized
  exact ⟨⟨wellFormed, spared⟩, report, inserted, realized⟩

end Graph

end GraphGrammar
