import GraphGrammar.Id.Basic
import GraphGrammar.Label.Basic
import Std.Data.ExtTreeMap

/-!
Nodes and edges, and the tables of them that make up a graph: each record stands under its own id, and an
edge only ever leads from one node of the table to another one. Entries may be added, written over and,
where they are edges, taken out.
-/

namespace GraphGrammar

structure Node where
  id : NodeId
  label : Label
deriving Inhabited

/-- A directed edge. The prerequisite says what has to be reached before the edge can be passed. -/
structure Edge where
  id : EdgeId
  src : NodeId
  dest : NodeId
  label : Label
  prereq : Option Label
deriving Inhabited

/-- Each record stands under its own id, and the ends of each edge are nodes. -/
structure Graph.Closed (nodeMap : Std.ExtTreeMap NodeId Node) (edgeMap : Std.ExtTreeMap EdgeId Edge) :
    Prop where
  node_id : ∀ {id : NodeId} {node : Node}, nodeMap[id]? = some node → node.id = id
  edge_id : ∀ {id : EdgeId} {edge : Edge}, edgeMap[id]? = some edge → edge.id = id
  ends : ∀ {id : EdgeId} {edge : Edge}, edgeMap[id]? = some edge →
    nodeMap.contains edge.src = true ∧ nodeMap.contains edge.dest = true

theorem exists_of_getElem?_modify {α β : Type} {cmp : α → α → Ordering} [Std.TransCmp cmp]
    [Std.LawfulEqCmp cmp] {m : Std.ExtTreeMap α β cmp} {key k : α} {f : β → β} {v : β}
    (found : (m.modify key f)[k]? = some v) : ∃ old, m[k]? = some old ∧ (v = f old ∨ v = old) := by
  rw [Std.ExtTreeMap.getElem?_modify] at found
  split at found
  · next same =>
    cases Std.LawfulEqCmp.eq_of_compare same
    obtain ⟨old, there, rfl⟩ := Option.map_eq_some_iff.mp found
    exact ⟨old, there, .inl rfl⟩
  · exact ⟨v, found, .inr rfl⟩

namespace Graph.Closed

variable {nodeMap : Std.ExtTreeMap NodeId Node} {edgeMap : Std.ExtTreeMap EdgeId Edge}

theorem empty : Closed ∅ ∅ where
  node_id found := by
    rw [Std.ExtTreeMap.getElem?_empty] at found
    cases found
  edge_id found := by
    rw [Std.ExtTreeMap.getElem?_empty] at found
    cases found
  ends found := by
    rw [Std.ExtTreeMap.getElem?_empty] at found
    cases found

theorem insertNode (closed : Closed nodeMap edgeMap) (node : Node) :
    Closed (nodeMap.insert node.id node) edgeMap where
  node_id {id old} found := by
    rw [Std.ExtTreeMap.getElem?_insert] at found
    split at found
    · next same =>
      cases found
      exact Std.LawfulEqOrd.eq_of_compare same
    · exact closed.node_id found
  edge_id := closed.edge_id
  ends found := by
    obtain ⟨src, dest⟩ := closed.ends found
    simp only [Std.ExtTreeMap.contains_insert, src, dest, Bool.or_true, and_self]

theorem insertEdge (closed : Closed nodeMap edgeMap) (edge : Edge)
    (present : nodeMap.contains edge.src = true ∧ nodeMap.contains edge.dest = true) :
    Closed nodeMap (edgeMap.insert edge.id edge) where
  node_id := closed.node_id
  edge_id found := by
    rw [Std.ExtTreeMap.getElem?_insert] at found
    split at found
    · next same =>
      cases found
      exact Std.LawfulEqOrd.eq_of_compare same
    · exact closed.edge_id found
  ends found := by
    rw [Std.ExtTreeMap.getElem?_insert] at found
    split at found
    · cases found
      exact present
    · exact closed.ends found

/-- Records that stem from others may take their place if they have their ids and ends. -/
theorem of_origin (closed : Closed nodeMap edgeMap) {nodeMap' : Std.ExtTreeMap NodeId Node}
    {edgeMap' : Std.ExtTreeMap EdgeId Edge}
    (node : ∀ {id : NodeId} {node : Node}, nodeMap'[id]? = some node →
      ∃ old : Node, nodeMap[id]? = some old ∧ node.id = old.id)
    (edge : ∀ {id : EdgeId} {edge : Edge}, edgeMap'[id]? = some edge →
      ∃ old : Edge, edgeMap[id]? = some old ∧
        edge.id = old.id ∧ edge.src = old.src ∧ edge.dest = old.dest)
    (present : ∀ id, nodeMap'.contains id = nodeMap.contains id) : Closed nodeMap' edgeMap' where
  node_id found := by
    obtain ⟨old, there, same⟩ := node found
    exact same.trans (closed.node_id there)
  edge_id found := by
    obtain ⟨old, there, same, _⟩ := edge found
    exact same.trans (closed.edge_id there)
  ends found := by
    obtain ⟨old, there, _, src, dest⟩ := edge found
    rw [present, present, src, dest]
    exact closed.ends there

theorem eraseEdge (closed : Closed nodeMap edgeMap) (id : EdgeId) :
    Closed nodeMap (edgeMap.erase id) := by
  refine closed.of_origin (fun found => ⟨_, found, rfl⟩) (fun found => ?_) fun _ => rfl
  rw [Std.ExtTreeMap.getElem?_erase] at found
  split at found
  · cases found
  · exact ⟨_, found, rfl, rfl, rfl⟩

theorem modifyNode (closed : Closed nodeMap edgeMap) (id : NodeId) {f : Node → Node}
    (same : ∀ node, (f node).id = node.id) : Closed (nodeMap.modify id f) edgeMap := by
  refine closed.of_origin (fun found => ?_) (fun found => ⟨_, found, rfl, rfl, rfl⟩)
    fun _ => Std.ExtTreeMap.contains_modify
  obtain ⟨old, there, rfl | rfl⟩ := exists_of_getElem?_modify found
  · exact ⟨old, there, same old⟩
  · exact ⟨_, there, rfl⟩

theorem modifyEdge (closed : Closed nodeMap edgeMap) (id : EdgeId) {f : Edge → Edge}
    (same : ∀ edge, (f edge).id = edge.id ∧ (f edge).src = edge.src ∧ (f edge).dest = edge.dest) :
    Closed nodeMap (edgeMap.modify id f) := by
  refine closed.of_origin (fun found => ⟨_, found, rfl⟩) (fun found => ?_) fun _ => rfl
  obtain ⟨old, there, rfl | rfl⟩ := exists_of_getElem?_modify found
  · exact ⟨old, there, same old⟩
  · exact ⟨_, there, rfl, rfl, rfl⟩

end Graph.Closed

end GraphGrammar
