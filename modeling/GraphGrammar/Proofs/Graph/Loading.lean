import GraphGrammar.Proofs.Graph.Allowed
import GraphGrammar.Proofs.Graph.Consistency
import GraphGrammar.Proofs.Graph.Sound

/-!
What a loaded graph inherits from its document. Its nodes and edges are those of the document, so that their labels
are allowed where those of the document are. The counters are past all ids, so the graph is sound.
-/

namespace GraphGrammar

variable {P : Label → Prop}

structure GraphDocument.Allowed (P : Label → Prop) (d : GraphDocument) : Prop where
  node : ∀ n ∈ d.nodes, P n.label
  edge : ∀ e ∈ d.edges, e.Allowed P

theorem GraphDocument.Describes.sound {d : GraphDocument} {g : Graph} (describes : d.Describes g) :
    g.Sound where
  node_counted present := by
    obtain ⟨n, listed, same⟩ := List.mem_map.mp ((describes.hasNode _).mp present)
    have past := onePast_le_iff.mp (Nat.le_trans (Nat.le_max_right ..) (Nat.le_of_eq describes.nextNode.symm))
    exact past _ (List.mem_map.mpr ⟨n, listed, congrArg NodeId.index same⟩)
  edge_counted present := by
    obtain ⟨e, listed, same⟩ := List.mem_map.mp ((describes.hasEdge _).mp present)
    have past := onePast_le_iff.mp (Nat.le_trans (Nat.le_max_right ..) (Nat.le_of_eq describes.nextEdge.symm))
    exact past _ (List.mem_map.mpr ⟨e, listed, congrArg EdgeId.index same⟩)

namespace Graph

theorem describes_of_load {d : GraphDocument} {g : Graph} (loaded : d.load = .ok g) : d.Describes g :=
  (GraphDocument.decides_load d).of_ok loaded

theorem has_of_load {d : GraphDocument} {g : Graph} (loaded : d.load = .ok g) :
    (∀ n ∈ d.nodes, g.hasNode n.id = true) ∧ ∀ e ∈ d.edges, g.hasEdge e.id = true := by
  have describes := describes_of_load loaded
  constructor
  · intro n listed
    exact (describes.hasNode _).mpr (List.mem_map_of_mem listed)
  · intro e listed
    exact (describes.hasEdge _).mpr (List.mem_map_of_mem listed)

theorem load_sound {d : GraphDocument} {g : Graph} (loaded : d.load = .ok g) : g.Sound :=
  (describes_of_load loaded).sound

theorem load_allowed {d : GraphDocument} {g : Graph} (allowed : d.Allowed P)
    (loaded : d.load = .ok g) : g.Allowed P := by
  have describes := describes_of_load loaded
  exact ⟨fun found => allowed.node _ (describes.node.mp found).1,
    fun found => allowed.edge _ (describes.edge.mp found).1⟩

end Graph

end GraphGrammar
