import GraphGrammar.Proofs.Graph.Sound

/-!
The lists of nodes and edges. They hold what is found under some id, and with the counters this is all
that there is to a graph.
-/

namespace GraphGrammar

open Std (ExtTreeMap DTreeMap)

theorem values_eq_map_toList {α β : Type} {cmp : α → α → Ordering} [Std.TransCmp cmp]
    (m : ExtTreeMap α β cmp) : m.values = m.toList.map Prod.snd := by
  obtain ⟨⟨q⟩⟩ := m
  induction q using Quotient.inductionOn with
  | _ t =>
    change t.inner.values = (DTreeMap.Internal.Impl.Const.toList t.inner).map Prod.snd
    rw [DTreeMap.Internal.Impl.values_eq_map_snd,
      DTreeMap.Internal.Impl.Const.toList_eq_toListModel_map, List.map_map]
    rfl

theorem mem_values_iff {α β : Type} {cmp : α → α → Ordering} [Std.TransCmp cmp]
    [Std.LawfulEqCmp cmp] {m : ExtTreeMap α β cmp} {v : β} :
    v ∈ m.values ↔ ∃ k : α, m[k]? = some v := by
  rw [values_eq_map_toList, List.mem_map]
  constructor
  · rintro ⟨⟨k, w⟩, listed, rfl⟩
    exact ⟨k, ExtTreeMap.mem_toList_iff_getElem?_eq_some.mp listed⟩
  · rintro ⟨k, found⟩
    exact ⟨(k, v), ExtTreeMap.mem_toList_iff_getElem?_eq_some.mpr found, rfl⟩

theorem map_values_eq_keys {α β : Type} {cmp : α → α → Ordering} [Std.TransCmp cmp]
    [Std.LawfulEqCmp cmp] {m : ExtTreeMap α β cmp} {key : β → α}
    (tells : ∀ {k v}, m[k]? = some v → key v = k) : m.values.map key = m.keys := by
  rw [values_eq_map_toList, ← ExtTreeMap.map_fst_toList_eq_keys, List.map_map]
  refine List.map_congr_left fun pair listed => ?_
  exact tells (ExtTreeMap.mem_toList_iff_getElem?_eq_some.mp listed)

theorem nodup_map_values {α β : Type} {cmp : α → α → Ordering} [Std.TransCmp cmp]
    [Std.LawfulEqCmp cmp] {m : ExtTreeMap α β cmp} {key : β → α}
    (tells : ∀ {k v}, m[k]? = some v → key v = k) : (m.values.map key).Nodup := by
  rw [map_values_eq_keys tells]
  exact ExtTreeMap.nodup_keys

theorem pairwise_map_values {α β : Type} {cmp : α → α → Ordering} [Std.TransCmp cmp]
    [Std.LawfulEqCmp cmp] {m : ExtTreeMap α β cmp} {key : β → α}
    (tells : ∀ {k v}, m[k]? = some v → key v = k) :
    m.values.Pairwise fun v w => cmp (key v) (key w) = .lt := by
  have keys : (m.values.map key).Pairwise fun k k' => cmp k k' = .lt := by
    rw [map_values_eq_keys tells]
    exact ExtTreeMap.ordered_keys
  exact List.pairwise_map.mp keys

namespace Graph

theorem mem_nodes_iff {g : Graph} {node : Node} : node ∈ g.nodes ↔ ∃ id, g.node? id = some node :=
  mem_values_iff

theorem mem_edges_iff {g : Graph} {edge : Edge} : edge ∈ g.edges ↔ ∃ id, g.edge? id = some edge :=
  mem_values_iff

variable {g : Graph}

theorem node?_eq_some_iff {id : NodeId} {node : Node} :
    g.node? id = some node ↔ node ∈ g.nodes ∧ node.id = id := by
  constructor
  · intro found
    exact ⟨mem_nodes_iff.mpr ⟨id, found⟩, node_id found⟩
  · rintro ⟨listed, rfl⟩
    obtain ⟨key, found⟩ := mem_nodes_iff.mp listed
    rw [node_id found]
    exact found

theorem edge?_eq_some_iff {id : EdgeId} {edge : Edge} :
    g.edge? id = some edge ↔ edge ∈ g.edges ∧ edge.id = id := by
  constructor
  · intro found
    exact ⟨mem_edges_iff.mpr ⟨id, found⟩, edge_id found⟩
  · rintro ⟨listed, rfl⟩
    obtain ⟨key, found⟩ := mem_edges_iff.mp listed
    rw [edge_id found]
    exact found

theorem ascending_nodes (g : Graph) :
    (g.nodes.map Node.id).Pairwise fun id next => id.index < next.index := by
  have ordered := pairwise_map_values g.closed.node_id
  exact List.pairwise_map.mpr (ordered.imp (Std.compare_eq_lt (α := UInt64)).mp)

theorem ascending_edges (g : Graph) :
    (g.edges.map Edge.id).Pairwise fun id next => id.index < next.index := by
  have ordered := pairwise_map_values g.closed.edge_id
  exact List.pairwise_map.mpr (ordered.imp (Std.compare_eq_lt (α := UInt64)).mp)

/-- A graph is determined by what is found in it and by its counters. -/
theorem eq_of_lookup {g h : Graph} (nodes : ∀ id, g.node? id = h.node? id)
    (edges : ∀ id, g.edge? id = h.edge? id) (ids : g.ids = h.ids) : g = h := by
  obtain ⟨nodeMap, edgeMap, counters, _⟩ := g
  obtain ⟨nodeMap', edgeMap', counters', _⟩ := h
  have sameNodes : nodeMap = nodeMap' := ExtTreeMap.ext_getElem? nodes
  have sameEdges : edgeMap = edgeMap' := ExtTreeMap.ext_getElem? edges
  subst sameNodes sameEdges ids
  rfl

end Graph

end GraphGrammar
