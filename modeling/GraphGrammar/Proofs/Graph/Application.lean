import GraphGrammar.Application
import GraphGrammar.Proofs.Graph.Allowed

/-!
The application of a rule as a development: it adds the nodes and edges that its report lists, and
brings no other id into the graph. If a rule keeps a predicate on labels that does not depend on texts,
only labels with this predicate enter.
-/

namespace GraphGrammar

structure SubgraphSpec.Allowed (P : Label → Prop) (spec : SubgraphSpec) : Prop where
  node : ∀ n ∈ spec.nodes, P n.label
  edge : ∀ e ∈ spec.edges, P e.label
  prereq : ∀ e ∈ spec.edges, ∀ p ∈ e.prereq, P p

structure MatchedEdge.Allowed (P : Label → Prop) (m : MatchedEdge) : Prop where
  src : P m.src.label
  dest : P m.dest.label
  edge : m.edge.Allowed P

/-- Whether a kind of rule makes allowed labels from allowed ones. -/
def RuleKind.Keeps (P : Label → Prop) : RuleKind → Prop
  | .node _ update | .edge _ update => ∀ l, P l → P (update.run l)
  | .graph _ build => ∀ m spec, m.Allowed P → build m = some spec → spec.Allowed P
  | .unrecognized _ => True

def IgnoresTexts (P : Label → Prop) : Prop := ∀ f l, P l → P (Label.mapStrings f l)

theorem RuleKind.keeps_true (kind : RuleKind) : kind.Keeps fun _ => True := by
  cases kind with
  | node => exact fun _ _ => trivial
  | edge => exact fun _ _ => trivial
  | graph => exact fun _ _ _ _ => ⟨fun _ _ => trivial, fun _ _ => trivial, fun _ _ _ _ => trivial⟩
  | unrecognized => trivial

theorem ignoresTexts_true : IgnoresTexts fun _ => True := fun _ _ _ => trivial

namespace Graph

variable {P : Label → Prop}

theorem addNodes_cons (g : Graph) (spec : NodeSpec) (rest : List NodeSpec) :
    g.addNodes (spec :: rest) =
      ((spec.name, (g.addNode spec.label).1) :: ((g.addNode spec.label).2.addNodes rest).1,
        ((g.addNode spec.label).2.addNodes rest).2) := rfl

theorem addNodes_development (g : Graph) (specs : List NodeSpec) (allowed : ∀ n ∈ specs, P n.label) :
    Development P g ((g.addNodes specs).1.map Prod.snd) [] (g.addNodes specs).2 := by
  induction specs generalizing g with
  | nil => exact .refl g
  | cons spec rest ih =>
    have tail := ih (g.addNode spec.label).2 fun n member => allowed n (List.mem_cons_of_mem _ member)
    exact .step (.addNode g (allowed spec List.mem_cons_self)) tail

theorem addEdgeSpec_eq_some {g h : Graph} {bindings : Bindings} {spec : EdgeSpec} {id : EdgeId}
    (added : g.addEdgeSpec bindings spec = some (id, h)) :
    ∃ src dest, bindings.resolve? spec.src = some src ∧ bindings.resolve? spec.dest = some dest ∧
      g.addEdge src dest (spec.mapStrings bindings.text?).label
        (spec.mapStrings bindings.text?).prereq = .ok (id, h) := by
  simp only [addEdgeSpec, Option.bind_eq_bind, Option.bind_eq_some_iff] at added
  obtain ⟨src, hsrc, dest, hdest, result⟩ := added
  refine ⟨src, dest, hsrc, hdest, ?_⟩
  cases sum : g.addEdge src dest (spec.mapStrings bindings.text?).label
      (spec.mapStrings bindings.text?).prereq with
  | error e => rw [sum] at result; cases result
  | ok pair => rw [sum] at result; cases result; rfl

theorem addEdgeSpecs_development (texts : IgnoresTexts P) (g : Graph) (bindings : Bindings)
    (specs : List EdgeSpec) (allowed : ∀ e ∈ specs, P e.label)
    (prereqAllowed : ∀ e ∈ specs, ∀ p ∈ e.prereq, P p) :
    Development P g [] (g.addEdgeSpecs bindings specs).1 (g.addEdgeSpecs bindings specs).2.2 := by
  induction specs generalizing g with
  | nil => exact .refl g
  | cons spec rest ih =>
    have tail (h : Graph) := ih h (fun e member => allowed e (List.mem_cons_of_mem _ member))
      (fun e member => prereqAllowed e (List.mem_cons_of_mem _ member))
    unfold addEdgeSpecs
    cases result : g.addEdgeSpec bindings spec with
    | none => exact tail g
    | some pair =>
      obtain ⟨id, h⟩ := pair
      obtain ⟨src, dest, _, _, added⟩ := addEdgeSpec_eq_some result
      have label := texts bindings.text? _ (allowed spec List.mem_cons_self)
      have prereq : ∀ p ∈ (spec.mapStrings bindings.text?).prereq, P p := by
        intro p member
        obtain ⟨old, there, rfl⟩ := Option.map_eq_some_iff.mp member
        exact texts _ _ (prereqAllowed spec List.mem_cons_self old there)
      exact .step (.addEdge label prereq added) (tail h)

theorem insertSubgraph_development (texts : IgnoresTexts P) (g : Graph) {spec : SubgraphSpec}
    (allowed : spec.Allowed P) :
    Development P g (g.insertSubgraph spec).1.addedNodes (g.insertSubgraph spec).1.addedEdges
      (g.insertSubgraph spec).2 := by
  have nodes := addNodes_development g spec.nodes allowed.node
  have edges := addEdgeSpecs_development texts (g.addNodes spec.nodes).2 (g.addNodes spec.nodes).1
    spec.edges allowed.edge allowed.prereq
  have both := nodes.trans edges
  rw [List.append_nil, List.nil_append] at both
  exact both

theorem replaceEdge_cases (g : Graph) (build : MatchedEdge → Option SubgraphSpec) (id : EdgeId)
    (src dest : NodeId) :
    g.replaceEdge build id src dest = ({}, g) ∨
    ∃ m : MatchedEdge, (g.node? src = some m.src ∧ g.node? dest = some m.dest ∧
        g.edge? id = some m.edge) ∧
      ((build m = none ∧
        g.replaceEdge build id src dest = ({ removedEdge := some m.edge.id }, g.eraseEdge id)) ∨
      ∃ spec, build m = some spec ∧ g.replaceEdge build id src dest =
        ({ ((g.eraseEdge id).insertSubgraph spec).1 with removedEdge := some m.edge.id },
          ((g.eraseEdge id).insertSubgraph spec).2)) := by
  unfold replaceEdge
  split
  · next s d e hs hd he =>
    refine .inr ⟨⟨s, d, e⟩, ⟨hs, hd, he⟩, ?_⟩
    cases built : build ⟨s, d, e⟩ with
    | none => exact .inl ⟨rfl, rfl⟩
    | some spec => exact .inr ⟨spec, rfl, rfl⟩
  · exact .inl rfl

theorem applyAt_cases (g : Graph) (kind : RuleKind) (site : Site) :
    g.applyAt kind site = ({}, g) ∨
    (∃ condition update id, kind = .node condition update ∧
      g.applyAt kind site = ({ updatedNode := some id }, g.modifyNodeLabel id update.run)) ∨
    (∃ pattern update id, kind = .edge pattern update ∧
      g.applyAt kind site = ({ updatedEdge := some id }, g.modifyEdgeLabel id update.run)) ∨
    ∃ pattern build id src dest, kind = .graph pattern build ∧
      g.applyAt kind site = g.replaceEdge build id src dest := by
  unfold applyAt
  split
  · next condition update id =>
    split
    · exact .inr (.inl ⟨condition, update, id, rfl, rfl⟩)
    · exact .inl rfl
  · next pattern update id _ _ =>
    split
    · exact .inr (.inr (.inl ⟨pattern, update, id, rfl, rfl⟩))
    · exact .inl rfl
  · next pattern build id src dest =>
    exact .inr (.inr (.inr ⟨pattern, build, id, src, dest, rfl, rfl⟩))
  · exact .inl rfl

theorem replaceEdge_development (texts : IgnoresTexts P) {g : Graph} (labels : g.Allowed P)
    {build : MatchedEdge → Option SubgraphSpec}
    (keeps : ∀ m spec, m.Allowed P → build m = some spec → spec.Allowed P) (id : EdgeId)
    (src dest : NodeId) :
    Development P g (g.replaceEdge build id src dest).1.addedNodes
      (g.replaceEdge build id src dest).1.addedEdges (g.replaceEdge build id src dest).2 := by
  rcases g.replaceEdge_cases build id src dest with
    rests | ⟨m, ⟨hs, hd, he⟩, ⟨_, erases⟩ | ⟨spec, built, inserts⟩⟩
  · rw [rests]
    exact .refl g
  · rw [erases]
    exact .of_mutation (.eraseEdge g id)
  · have matched : m.Allowed P := ⟨labels.node hs, labels.node hd, labels.edge he⟩
    rw [inserts]
    exact .step (.eraseEdge g id)
      (insertSubgraph_development texts _ (keeps m spec matched built))

theorem applyAt_development (texts : IgnoresTexts P) {g : Graph} (labels : g.Allowed P)
    {kind : RuleKind} (keeps : kind.Keeps P) (site : Site) :
    Development P g (g.applyAt kind site).1.addedNodes (g.applyAt kind site).1.addedEdges
      (g.applyAt kind site).2 := by
  rcases g.applyAt_cases kind site with
    rests | ⟨_, _, id, rfl, writes⟩ | ⟨_, _, id, rfl, writes⟩ | ⟨_, _, id, src, dest, rfl, replaces⟩
  · rw [rests]
    exact .refl g
  · rw [writes]
    exact .of_mutation (.writeNodeLabel g id keeps)
  · rw [writes]
    exact .of_mutation (.writeEdgeLabel g id keeps)
  · rw [replaces]
    exact replaceEdge_development texts labels keeps id src dest

end Graph

end GraphGrammar
