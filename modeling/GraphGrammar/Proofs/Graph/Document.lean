import GraphGrammar.Proofs.Graph.Loading
import GraphGrammar.Proofs.Graph.Listing
import GraphGrammar.Proofs.Id.Text
import GraphGrammar.Proofs.Label.Document

/-!
Graph documents. A graph that was read is sound, and its labels fit a document again. Conversely a sound
graph is what its own document describes.
-/

namespace GraphGrammar

open Json (Numeral Reads Tree greatestDepth)
open Json.Reads (gives_any gives_readList mapM_of_forall)
open Json.Fields (gives_readRecord gives_seq gives_map gives_required gives_withDefault gives_optional
  readRecord_object read_seq read_map read_given read_missing read_optionalMember)

theorem readGraphDocument_gives :
    Reads.Gives Numeral.IsFinite greatestDepth readGraphDocument
      (GraphDocument.Allowed Label.FitsGraph) := by
  have label := readLabel_fitsGraph (Nat.le_refl (greatestDepth - 3))
  have node : Reads.Gives Numeral.IsFinite (greatestDepth - 2) readNode fun n =>
      Label.FitsGraph n.label := by
    refine gives_readRecord (gives_seq (gives_map (gives_required _ (gives_any _)) ?_)
      (gives_withDefault _ label Label.within_empty))
    exact fun _ _ _ ok => ok
  have edge : Reads.Gives Numeral.IsFinite (greatestDepth - 2) readEdge
      (Edge.Allowed Label.FitsGraph) := by
    refine gives_readRecord (gives_seq (gives_seq (gives_seq (gives_seq (gives_map
      (gives_required _ (gives_any _)) ?_) (gives_required _ (gives_any _)))
      (gives_required _ (gives_any _))) (gives_withDefault _ label Label.within_empty))
      (gives_optional _ label))
    exact fun _ _ _ _ _ _ _ label _ prereq => ⟨label, prereq⟩
  refine gives_readRecord (gives_seq (gives_seq (gives_seq (gives_map
    (gives_withDefault _ (gives_readList node) (List.forall_mem_nil _)) ?_)
    (gives_withDefault _ (gives_readList edge) (List.forall_mem_nil _)))
    (gives_withDefault _ (gives_any _) trivial)) (gives_withDefault _ (gives_any _) trivial))
  exact fun _ nodes _ edges _ _ _ _ => ⟨nodes, edges⟩

theorem Graph.sound_of_ofText {text : String} {g : Graph} (read : Graph.ofText text = .ok g) :
    g.Sound ∧ g.Allowed Label.FitsGraph := by
  obtain ⟨tree, within, there⟩ := Json.exists_tree_of_readText read
  obtain ⟨d, document, loaded⟩ := ok_of_bind there
  have loaded := ok_of_mapError loaded
  exact ⟨load_sound loaded, load_allowed (readGraphDocument_gives within document) loaded⟩

namespace Graph

variable {g : Graph}

theorem node?_of_mem {node : Node} (listed : node ∈ g.nodes) : g.node? node.id = some node :=
  node?_eq_some_iff.mpr ⟨listed, rfl⟩

theorem edge?_of_mem {edge : Edge} (listed : edge ∈ g.edges) : g.edge? edge.id = some edge :=
  edge?_eq_some_iff.mpr ⟨listed, rfl⟩

theorem Sound.describes (sound : g.Sound) : (GraphDocument.ofGraph g).Describes g where
  node := node?_eq_some_iff
  edge := edge?_eq_some_iff
  nextNode := by
    refine (Nat.max_eq_left (onePast_le_iff.mpr (List.forall_mem_map.mpr fun n listed => ?_))).symm
    exact sound.node_counted (hasNode_of_node? (node?_of_mem listed))
  nextEdge := by
    refine (Nat.max_eq_left (onePast_le_iff.mpr (List.forall_mem_map.mpr fun e listed => ?_))).symm
    exact sound.edge_counted (hasEdge_of_edge? (edge?_of_mem listed))

theorem Sound.consistent (sound : g.Sound) : (GraphDocument.ofGraph g).Consistent where
  nodes := nodup_map_values g.closed.node_id
  edges := nodup_map_values g.closed.edge_id
  ends e listed := by
    have ends := ends (edge?_of_mem listed)
    exact ⟨(sound.describes.hasNode _).mp ends.1, (sound.describes.hasNode _).mp ends.2⟩

/-- A sound graph is loaded from its own document as it was, counters included. -/
theorem Sound.load_ofGraph (sound : g.Sound) : (GraphDocument.ofGraph g).load = .ok g := by
  have decided := GraphDocument.decides_load (.ofGraph g)
  obtain ⟨h, loaded⟩ := decided.exists_ok_iff.mpr (GraphDocument.consistent_iff.mp sound.consistent)
  rw [loaded, (decided.of_ok loaded).unique sound.describes]

end Graph

theorem readNodeId_text (id : NodeId) : readNodeId (.string id.text) = .ok id := by
  change (NodeId.ofText id.text).mapError _ = _
  rw [NodeId.ofText, id.parse?_text]
  rfl

theorem readEdgeId_text (id : EdgeId) : readEdgeId (.string id.text) = .ok id := by
  change (EdgeId.ofText id.text).mapError _ = _
  rw [EdgeId.ofText, id.parse?_text]
  rfl

theorem readNode_toTree (node : Node) : readNode node.toTree = .ok node :=
  readRecord_object (read_seq (read_map (read_given rfl (readNodeId_text node.id)))
    (read_given rfl (readLabel_toTree node.label)))

theorem readEdge_toTree (edge : Edge) : readEdge edge.toTree = .ok edge := by
  have label := readLabel_toTree edge.label
  have prereq : ∀ p ∈ edge.prereq, p.toTree ≠ .null ∧ readLabel p.toTree = .ok p := fun p _ =>
    ⟨(nomatch ·), readLabel_toTree p⟩
  exact readRecord_object (read_seq (read_seq (read_seq (read_seq (read_map
    (read_given (by simp) (readEdgeId_text edge.id))) (read_given (by simp) (readNodeId_text edge.src)))
    (read_given (by simp) (readNodeId_text edge.dest))) (read_given (by simp) label))
    (read_optionalMember (by simp) prereq))

def GraphDocument.members (nodes : List Node) (edges : List Edge) (nextNode nextEdge : Option UInt64) :
    List (String × Tree) :=
  ("nodes", .array (nodes.map Node.toTree)) :: ("edges", .array (edges.map Edge.toTree)) ::
    (Json.optionalMember "next_node" (.number ∘ .natural) nextNode ++
      Json.optionalMember "next_edge" (.number ∘ .natural) nextEdge)

theorem read_counter {r : Json.Record} {name : String} {stored : Option UInt64}
    (given : Json.Fields.given name r.members = (stored.map (Tree.number ∘ .natural)).toList) :
    (Json.Fields.withDefault name 0 Json.readWord64).read r = .ok (stored.getD 0) := by
  cases stored with
  | none => exact read_missing given rfl
  | some n => exact read_given given rfl

theorem readGraphDocument_members (nodes : List Node) (edges : List Edge) (nextNode nextEdge : Option UInt64) :
    readGraphDocument (.object (GraphDocument.members nodes edges nextNode nextEdge)) =
      .ok ⟨nodes, edges, nextNode.getD 0, nextEdge.getD 0⟩ := by
  have nodesBack : Json.readList readNode (.array (nodes.map Node.toTree)) = .ok nodes :=
    mapM_of_forall fun n _ => readNode_toTree n
  have edgesBack : Json.readList readEdge (.array (edges.map Edge.toTree)) = .ok edges :=
    mapM_of_forall fun e _ => readEdge_toTree e
  exact readRecord_object (read_seq (read_seq (read_seq (read_map
    (read_given (by simp [GraphDocument.members]) nodesBack))
    (read_given (by simp [GraphDocument.members]) edgesBack))
    (read_counter (by simp [GraphDocument.members]))) (read_counter (by simp [GraphDocument.members])))

theorem readGraphDocument_toTree (d : GraphDocument) : readGraphDocument d.toTree = .ok d :=
  readGraphDocument_members d.nodes d.edges (some d.nextNode) (some d.nextEdge)

theorem Graph.Sound.readGraph_toTree {g : Graph} (sound : g.Sound) : readGraph g.toTree = .ok g := by
  rw [readGraph, Graph.toTree, readGraphDocument_toTree]
  change (GraphDocument.load _).mapError _ = _
  rw [sound.load_ofGraph]
  rfl

end GraphGrammar
