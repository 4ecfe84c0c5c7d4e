import GraphGrammar.Proofs.Graph.Mutation

/-!
Predicates on the labels of a graph. A mutation that lets only allowed labels in keeps all labels of
the graph allowed, those of nodes and edges as well as prerequisites.
-/

namespace GraphGrammar

namespace Graph

variable {P : Label → Prop}

structure Allowed (P : Label → Prop) (g : Graph) : Prop where
  node : ∀ {id node}, g.node? id = some node → P node.label
  edge : ∀ {id edge}, g.edge? id = some edge → edge.Allowed P

theorem allowed_true (g : Graph) : g.Allowed fun _ => True :=
  ⟨fun _ => trivial, fun _ => ⟨trivial, fun _ _ => trivial⟩⟩

theorem allowed_empty : (∅ : Graph).Allowed P where
  node found := by
    rw [node?_empty] at found
    cases found
  edge found := by
    rw [edge?_empty] at found
    cases found

theorem Allowed.imp {Q : Label → Prop} {g : Graph} (labels : g.Allowed P) (weaker : ∀ l, P l → Q l) :
    g.Allowed Q where
  node found := weaker _ (labels.node found)
  edge found := ⟨weaker _ (labels.edge found).label, fun p member =>
    weaker p ((labels.edge found).prereq p member)⟩

theorem Allowed.and {Q : Label → Prop} {g : Graph} (labels : g.Allowed P) (more : g.Allowed Q) :
    g.Allowed fun l => P l ∧ Q l where
  node found := ⟨labels.node found, more.node found⟩
  edge found := ⟨⟨(labels.edge found).label, (more.edge found).label⟩, fun p member =>
    ⟨(labels.edge found).prereq p member, (more.edge found).prereq p member⟩⟩

theorem Mutation.allowed {g h : Graph} {nodes : List NodeId} {edges : List EdgeId}
    (change : Mutation P g nodes edges h) (labels : g.Allowed P) : h.Allowed P where
  node found := by
    rcases change.node_origin found with ⟨_, ok⟩ | ⟨old, there, keeps⟩
    · exact ok
    · exact keeps (labels.node there)
  edge found := by
    rcases change.edge_origin found with ⟨_, ok⟩ | ⟨old, there, _, _, keeps⟩
    · exact ok
    · exact keeps (labels.edge there)

theorem Development.allowed {g h : Graph} {nodes : List NodeId} {edges : List EdgeId}
    (development : Development P g nodes edges h) (labels : g.Allowed P) : h.Allowed P :=
  development.keeps Mutation.allowed labels

end Graph

end GraphGrammar
