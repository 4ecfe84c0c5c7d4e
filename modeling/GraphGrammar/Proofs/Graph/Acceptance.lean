import GraphGrammar.Graph.Digest
import GraphGrammar.Proofs.Graph.Document

/-!
Documents that load. They are the consistent ones, in whatever order they list their nodes and edges, and whether they
store counters or not. Every other document is refused for the first of its faults.
-/

namespace GraphGrammar.GraphDocument

variable {g : Graph}

section

variable {nodes otherNodes : List Node} {edges otherEdges : List Edge} {nextNode nextEdge : UInt64}

theorem Consistent.perm (consistent : (GraphDocument.mk nodes edges nextNode nextEdge).Consistent)
    (nodePerm : nodes.Perm otherNodes) (edgePerm : edges.Perm otherEdges) :
    (GraphDocument.mk otherNodes otherEdges nextNode nextEdge).Consistent where
  nodes := (nodePerm.map Node.id).nodup_iff.mp consistent.nodes
  edges := (edgePerm.map Edge.id).nodup_iff.mp consistent.edges
  ends e listed := by
    have ends := consistent.ends e (edgePerm.mem_iff.mpr listed)
    exact ⟨(nodePerm.map Node.id).mem_iff.mp ends.1, (nodePerm.map Node.id).mem_iff.mp ends.2⟩

theorem Describes.perm (describes : (GraphDocument.mk nodes edges nextNode nextEdge).Describes g)
    (nodePerm : nodes.Perm otherNodes) (edgePerm : edges.Perm otherEdges) :
    (GraphDocument.mk otherNodes otherEdges nextNode nextEdge).Describes g where
  node := describes.node.trans (and_congr_left' nodePerm.mem_iff)
  edge := describes.edge.trans (and_congr_left' edgePerm.mem_iff)
  nextNode := describes.nextNode.trans (congrArg (max _) (onePast_perm (nodePerm.map _)))
  nextEdge := describes.nextEdge.trans (congrArg (max _) (onePast_perm (edgePerm.map _)))

theorem load_eq_ok_of_perm (loaded : (GraphDocument.mk nodes edges nextNode nextEdge).load = .ok g)
    (nodePerm : nodes.Perm otherNodes) (edgePerm : edges.Perm otherEdges) :
    (GraphDocument.mk otherNodes otherEdges nextNode nextEdge).load = .ok g := by
  have decided := decides_load ⟨nodes, edges, nextNode, nextEdge⟩
  have decided' := decides_load ⟨otherNodes, otherEdges, nextNode, nextEdge⟩
  have consistent := (consistent_iff.mpr (decided.exists_ok_iff.mp ⟨g, loaded⟩)).perm nodePerm edgePerm
  obtain ⟨h, loaded'⟩ := decided'.exists_ok_iff.mpr (consistent_iff.mp consistent)
  rw [loaded', (decided'.of_ok loaded').unique ((decided.of_ok loaded).perm nodePerm edgePerm)]

theorem load_perm (nodePerm : nodes.Perm otherNodes) (edgePerm : edges.Perm otherEdges) :
    (GraphDocument.mk otherNodes otherEdges nextNode nextEdge).load.toOption =
      (GraphDocument.mk nodes edges nextNode nextEdge).load.toOption := by
  cases loaded : (GraphDocument.mk nodes edges nextNode nextEdge).load with
  | ok g => rw [load_eq_ok_of_perm loaded nodePerm edgePerm]
  | error e =>
    cases loaded' : (GraphDocument.mk otherNodes otherEdges nextNode nextEdge).load with
    | ok g =>
      rw [load_eq_ok_of_perm loaded' nodePerm.symm edgePerm.symm] at loaded
      cases loaded
    | error e' => rfl

end

/-- Loading accepts exactly the consistent documents. The graph has the nodes and edges of the document, and each of its
counters is the stored one or one past the greatest id, whichever is greater; a counter that is not stored counts as
zero. In another order the same nodes and edges load just as well, and give the same graph. A document that does not
load is refused for the first of its faults. -/
theorem load_accepts_consistent (nodes : List Node) (edges : List Edge) (nextNode nextEdge : Option UInt64) :
    let d : GraphDocument := ⟨nodes, edges, nextNode.getD 0, nextEdge.getD 0⟩
    ((∃ g, d.load = .ok g) ↔ d.Consistent) ∧
    (∀ g, d.load = .ok g → d.Describes g) ∧
    (∀ e, d.load = .error e ↔ d.faults.head? = some e) ∧
    (∀ nodes' edges', nodes.Perm nodes' → edges.Perm edges' →
      let d' : GraphDocument := ⟨nodes', edges', nextNode.getD 0, nextEdge.getD 0⟩
      d'.load.toOption = d.load.toOption ∧
        d'.load.toOption.map Graph.digest = d.load.toOption.map Graph.digest) ∧
    readGraph (.object (members nodes edges nextNode nextEdge)) =
      d.load.mapError fun e => .invalid (.inconsistent e) := by
  intro d
  have decided := decides_load d
  refine ⟨decided.exists_ok_iff.trans consistent_iff.symm, fun g => decided.of_ok, fun e => decided.eq_error_iff,
    fun nodes' edges' nodePerm edgePerm => ?_, ?_⟩
  · have same : (GraphDocument.mk nodes' edges' _ _).load.toOption = d.load.toOption := load_perm nodePerm edgePerm
    exact ⟨same, congrArg (Option.map Graph.digest) same⟩
  · rw [readGraph, readGraphDocument_members]
    rfl

/-- Nodes and edges that are not in the order of their ids, with one counter that is stored and too low. -/
theorem load_accepts_consistent_in_any_order :
    let nodes : List Node := [⟨⟨7⟩, ∅⟩, ⟨⟨2⟩, ∅⟩]
    let edges : List Edge := [⟨⟨5⟩, ⟨2⟩, ⟨7⟩, ∅, none⟩, ⟨⟨0⟩, ⟨7⟩, ⟨7⟩, ∅, some ∅⟩]
    let d : GraphDocument := ⟨nodes, edges, 0, 3⟩
    let d' : GraphDocument := ⟨nodes.reverse, edges.reverse, 0, 3⟩
    ∃ g, d.load = .ok g ∧ d.Describes g ∧ g.ids = ⟨8, 6⟩ ∧ d'.load.toOption = some g ∧
      readGraph (.object (members nodes edges none (some 3))) = .ok g := by
  intro nodes edges d d'
  obtain ⟨accepts, describes, _, order, read⟩ := load_accepts_consistent nodes edges none (some 3)
  obtain ⟨g, loaded⟩ := accepts.mpr (consistent_iff.mpr (by decide +kernel))
  obtain ⟨same, _⟩ := order nodes.reverse edges.reverse nodes.reverse_perm.symm edges.reverse_perm.symm
  have described : d.Describes g := describes g loaded
  have counters : g.ids = ⟨8, 6⟩ :=
    congrArg₂ Allocator.mk (UInt64.toNat_inj.mp described.nextNode) (UInt64.toNat_inj.mp described.nextEdge)
  refine ⟨g, loaded, described, counters, ?_, ?_⟩
  · exact same.trans (congrArg Except.toOption loaded)
  · rw [read, loaded]
    rfl

/-- The first of four faults is the one that is reported. -/
example : (GraphDocument.mk [⟨⟨1⟩, ∅⟩, ⟨⟨1⟩, ∅⟩] [⟨⟨0⟩, ⟨2⟩, ⟨3⟩, ∅, none⟩, ⟨⟨0⟩, ⟨1⟩, ⟨1⟩, ∅, none⟩] 0 0).faults =
    [.duplicateNode ⟨1⟩, .danglingEndpoint ⟨0⟩ ⟨2⟩, .danglingEndpoint ⟨0⟩ ⟨3⟩, .duplicateEdge ⟨0⟩] := by decide

end GraphGrammar.GraphDocument
