import GraphGrammar.Graph.Lemmas
import GraphGrammar.Proofs.Id.Counter

/-!
Mutations, of which everything that changes a graph is made: additions, insertions, an erasure and
writes of labels and prerequisites. Each comes with the ids that it brings into the graph. A
development is a sequence of mutations. What every mutation keeps, a development keeps.

A predicate on labels says which labels may enter and has to be kept by every write.
-/

namespace GraphGrammar

structure Edge.Allowed (P : Label → Prop) (edge : Edge) : Prop where
  label : P edge.label
  prereq : ∀ p ∈ edge.prereq, P p

namespace Graph

/-- One change of a graph, with the node ids and the edge ids that enter by it. -/
inductive Mutation (P : Label → Prop) : Graph → List NodeId → List EdgeId → Graph → Prop where
  | addNode (g : Graph) {label : Label} (allowed : P label) :
    Mutation P g [g.ids.peekNode] [] (g.addNode label).2
  | addEdge {g h : Graph} {src dest : NodeId} {label : Label} {prereq : Option Label} {id : EdgeId}
    (allowed : P label) (prereqAllowed : ∀ p ∈ prereq, P p)
    (added : g.addEdge src dest label prereq = .ok (id, h)) : Mutation P g [] [id] h
  | insertNode {g h : Graph} {node : Node} (allowed : P node.label)
    (inserted : g.insertNode node = .ok h) : Mutation P g [node.id] [] h
  | insertEdge {g h : Graph} {edge : Edge} (allowed : P edge.label)
    (prereqAllowed : ∀ p ∈ edge.prereq, P p) (inserted : g.insertEdge edge = .ok h) :
    Mutation P g [] [edge.id] h
  | eraseEdge (g : Graph) (id : EdgeId) : Mutation P g [] [] (g.eraseEdge id)
  | writeNodeLabel (g : Graph) (id : NodeId) {f : Label → Label} (allowed : ∀ l, P l → P (f l)) :
    Mutation P g [] [] (g.modifyNodeLabel id f)
  | writeEdgeLabel (g : Graph) (id : EdgeId) {f : Label → Label} (allowed : ∀ l, P l → P (f l)) :
    Mutation P g [] [] (g.modifyEdgeLabel id f)
  | writePrereq (g : Graph) (id : EdgeId) {prereq : Option Label} (allowed : ∀ p ∈ prereq, P p) :
    Mutation P g [] [] (g.setPrereq id prereq)

inductive Development (P : Label → Prop) : Graph → List NodeId → List EdgeId → Graph → Prop where
  | refl (g : Graph) : Development P g [] [] g
  | step {g h k : Graph} {nodes moreNodes : List NodeId} {edges moreEdges : List EdgeId}
    (first : Mutation P g nodes edges h) (rest : Development P h moreNodes moreEdges k) :
    Development P g (nodes ++ moreNodes) (edges ++ moreEdges) k

/-- Whether ids leave out the two that have no successor. -/
def SparesLast (nodes : List NodeId) (edges : List EdgeId) : Prop :=
  NodeId.last ∉ nodes ∧ EdgeId.last ∉ edges

instance (nodes : List NodeId) (edges : List EdgeId) : Decidable (SparesLast nodes edges) :=
  inferInstanceAs (Decidable (_ ∧ _))

theorem sparesLast_append {nodes moreNodes : List NodeId} {edges moreEdges : List EdgeId} :
    SparesLast (nodes ++ moreNodes) (edges ++ moreEdges) ↔
      SparesLast nodes edges ∧ SparesLast moreNodes moreEdges := by
  simp only [SparesLast, List.mem_append, not_or]
  constructor
  · rintro ⟨⟨n, m⟩, e, f⟩
    exact ⟨⟨n, e⟩, m, f⟩
  · rintro ⟨⟨n, e⟩, m, f⟩
    exact ⟨⟨n, m⟩, e, f⟩

namespace Development

variable {P : Label → Prop} {g h k : Graph} {nodes moreNodes : List NodeId}
  {edges moreEdges : List EdgeId}

theorem of_mutation (change : Mutation P g nodes edges h) : Development P g nodes edges h := by
  have once := Development.step change (.refl h)
  rw [List.append_nil, List.append_nil] at once
  exact once

theorem trans (first : Development P g nodes edges h) (rest : Development P h moreNodes moreEdges k) :
    Development P g (nodes ++ moreNodes) (edges ++ moreEdges) k := by
  induction first with
  | refl => exact rest
  | step change _ ih =>
    rw [List.append_assoc, List.append_assoc]
    exact .step change (ih rest)

theorem keeps {I : Graph → Prop} (kept : ∀ {g h nodes edges}, Mutation P g nodes edges h → I g → I h)
    (development : Development P g nodes edges h) (start : I g) : I h := by
  induction development with
  | refl => exact start
  | step change _ ih => exact ih (kept change start)

theorem invariant {I : Graph → Prop}
    (kept : ∀ {g h nodes edges}, Mutation P g nodes edges h → SparesLast nodes edges → I g → I h)
    (development : Development P g nodes edges h) (spared : SparesLast nodes edges) (start : I g) :
    I h := by
  induction development with
  | refl => exact start
  | step change _ ih =>
    obtain ⟨now, later⟩ := sparesLast_append.mp spared
    exact ih later (kept change now start)

end Development

namespace Mutation

variable {P : Label → Prop} {g h : Graph} {nodes : List NodeId} {edges : List EdgeId}

theorem node_origin (change : Mutation P g nodes edges h) {id : NodeId} {node : Node}
    (found : h.node? id = some node) :
    (id ∈ nodes ∧ P node.label) ∨ ∃ old, g.node? id = some old ∧ (P old.label → P node.label) := by
  have same (found : g.node? id = some node) :
      ∃ old, g.node? id = some old ∧ (P old.label → P node.label) :=
    ⟨node, found, fun ok => ok⟩
  cases change with
  | addNode ok =>
    rw [node?_addNode] at found
    split at found
    · next here =>
      cases found
      exact .inl ⟨List.mem_singleton.mpr here.symm, ok⟩
    · exact .inr (same found)
  | addEdge _ _ added =>
    rw [node?_addEdge added] at found
    exact .inr (same found)
  | insertNode ok inserted =>
    rw [node?_insertNode inserted] at found
    split at found
    · next here =>
      cases found
      exact .inl ⟨List.mem_singleton.mpr here.symm, ok⟩
    · exact .inr (same found)
  | insertEdge _ _ inserted =>
    rw [node?_insertEdge inserted] at found
    exact .inr (same found)
  | writeNodeLabel _ ok =>
    rw [node?_modifyNodeLabel] at found
    split at found
    · obtain ⟨old, there, rfl⟩ := Option.map_eq_some_iff.mp found
      exact .inr ⟨old, there, ok _⟩
    · exact .inr (same found)
  | eraseEdge | writeEdgeLabel | writePrereq => exact .inr (same found)

theorem edge_origin (change : Mutation P g nodes edges h) {id : EdgeId} {edge : Edge}
    (found : h.edge? id = some edge) :
    (id ∈ edges ∧ edge.Allowed P) ∨
      ∃ old, g.edge? id = some old ∧ edge.src = old.src ∧ edge.dest = old.dest ∧
        (old.Allowed P → edge.Allowed P) := by
  have same (found : g.edge? id = some edge) :
      ∃ old, g.edge? id = some old ∧ edge.src = old.src ∧ edge.dest = old.dest ∧
        (old.Allowed P → edge.Allowed P) :=
    ⟨edge, found, rfl, rfl, fun ok => ok⟩
  cases change with
  | addEdge ok prereqOk added =>
    rw [edge?_addEdge added] at found
    split at found
    · next here =>
      cases found
      exact .inl ⟨List.mem_singleton.mpr here.symm, ok, prereqOk⟩
    · exact .inr (same found)
  | insertNode _ inserted =>
    rw [edge?_insertNode inserted] at found
    exact .inr (same found)
  | insertEdge ok prereqOk inserted =>
    rw [edge?_insertEdge inserted] at found
    split at found
    · next here =>
      cases found
      exact .inl ⟨List.mem_singleton.mpr here.symm, ok, prereqOk⟩
    · exact .inr (same found)
  | eraseEdge =>
    rw [edge?_eraseEdge] at found
    split at found
    · cases found
    · exact .inr (same found)
  | writeEdgeLabel _ ok =>
    rw [edge?_modifyEdgeLabel] at found
    split at found
    · obtain ⟨old, there, rfl⟩ := Option.map_eq_some_iff.mp found
      exact .inr ⟨old, there, rfl, rfl, fun before => ⟨ok _ before.label, before.prereq⟩⟩
    · exact .inr (same found)
  | writePrereq _ ok =>
    rw [edge?_setPrereq] at found
    split at found
    · obtain ⟨old, there, rfl⟩ := Option.map_eq_some_iff.mp found
      exact .inr ⟨old, there, rfl, rfl, fun before => ⟨before.label, ok⟩⟩
    · exact .inr (same found)
  | addNode | writeNodeLabel => exact .inr (same found)

end Mutation

end Graph

end GraphGrammar
