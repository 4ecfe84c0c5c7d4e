import GraphGrammar.Proofs.Graph.Application
import GraphGrammar.Proofs.Graph.Sound

/-!
Ids in a row. What is added to a graph takes the numbers from the counter of its kind on, one after the
other, and leaves the counter past them. An edge that is dropped takes none.
-/

namespace GraphGrammar

open GraphGrammar.Graph (SparesLast)

/-- Ids are given out in a row by the first counters, which become the second ones. -/
structure Allocator.Issues (a : Allocator) (nodes : List NodeId) (edges : List EdgeId)
    (b : Allocator) : Prop where
  node : nodes.map (fun id => id.index.toNat) = List.range' a.nextNode.toNat nodes.length
  edge : edges.map (fun id => id.index.toNat) = List.range' a.nextEdge.toNat edges.length
  nextNode : b.nextNode.toNat = a.nextNode.toNat + nodes.length
  nextEdge : b.nextEdge.toNat = a.nextEdge.toNat + edges.length

namespace Allocator

theorem toNat_add_one {n : UInt64} (room : n ≠ lastIndex) : (n + 1).toNat = n.toNat + 1 := by
  rw [← successor_of_ne room, toNat_successor, if_neg room]

namespace Issues

variable {a b c : Allocator} {nodes moreNodes : List NodeId} {edges moreEdges : List EdgeId}

theorem refl (a : Allocator) : a.Issues [] [] a := by
  constructor <;> simp

theorem trans (first : a.Issues nodes edges b) (rest : b.Issues moreNodes moreEdges c) :
    a.Issues (nodes ++ moreNodes) (edges ++ moreEdges) c := by
  constructor
  · rw [List.map_append, first.node, rest.node, first.nextNode, List.length_append,
      List.range'_append_1]
  · rw [List.map_append, first.edge, rest.edge, first.nextEdge, List.length_append,
      List.range'_append_1]
  · simp [first.nextNode, rest.nextNode, Nat.add_assoc]
  · simp [first.nextEdge, rest.nextEdge, Nat.add_assoc]

theorem takeNode (room : a.peekNode ≠ .last) : a.Issues [a.peekNode] [] a.takeNode.2 := by
  have index : a.nextNode ≠ lastIndex := fun same => room (congrArg NodeId.mk same)
  constructor <;> simp [peekNode, Allocator.takeNode, toNat_add_one index]

theorem takeEdge (room : a.peekEdge ≠ .last) : a.Issues [] [a.peekEdge] a.takeEdge.2 := by
  have index : a.nextEdge ≠ lastIndex := fun same => room (congrArg EdgeId.mk same)
  constructor <;> simp [peekEdge, Allocator.takeEdge, toNat_add_one index]

theorem mem_nodes (issues : a.Issues nodes edges b) {id : NodeId} (member : id ∈ nodes) :
    a.nextNode ≤ id.index ∧ id.index < b.nextNode := by
  have listed := List.mem_map_of_mem (f := fun id : NodeId => id.index.toNat) member
  rw [issues.node, List.mem_range'_1] at listed
  rw [UInt64.le_iff_toNat_le, UInt64.lt_iff_toNat_lt, issues.nextNode]
  exact listed

theorem mem_edges (issues : a.Issues nodes edges b) {id : EdgeId} (member : id ∈ edges) :
    a.nextEdge ≤ id.index ∧ id.index < b.nextEdge := by
  have listed := List.mem_map_of_mem (f := fun id : EdgeId => id.index.toNat) member
  rw [issues.edge, List.mem_range'_1] at listed
  rw [UInt64.le_iff_toNat_le, UInt64.lt_iff_toNat_lt, issues.nextEdge]
  exact listed

theorem getElem?_nodes (issues : a.Issues nodes edges b) {i : Nat} {id : NodeId} :
    nodes[i]? = some id ↔ i < nodes.length ∧ id.index.toNat = a.nextNode.toNat + i := by
  have row := congrArg (·[i]?) issues.node
  simp only [List.getElem?_map] at row
  constructor
  · intro found
    have inside := (List.getElem?_eq_some_iff.mp found).1
    rw [found, List.getElem?_range' inside] at row
    exact ⟨inside, by simpa using row⟩
  · rintro ⟨inside, number⟩
    rw [List.getElem?_eq_getElem inside, List.getElem?_range' inside] at row
    rw [List.getElem?_eq_getElem inside, Option.some.injEq, NodeId.mk.injEq, ← UInt64.toNat_inj, number]
    simpa using row

end Issues

end Allocator

namespace Graph

theorem addNodes_issues (g : Graph) (specs : List NodeSpec)
    (spared : NodeId.last ∉ (g.addNodes specs).1.map Prod.snd) :
    g.ids.Issues ((g.addNodes specs).1.map Prod.snd) [] (g.addNodes specs).2.ids := by
  induction specs generalizing g with
  | nil => exact .refl g.ids
  | cons spec rest ih =>
    rw [addNodes_cons] at spared ⊢
    simp only [List.map_cons, List.mem_cons, not_or] at spared
    have first : g.ids.Issues [g.ids.peekNode] [] (g.addNode spec.label).2.ids :=
      .takeNode (Ne.symm spared.1)
    exact first.trans (ih _ spared.2)

theorem addEdgeSpecs_issues (g : Graph) (bindings : Bindings) (specs : List EdgeSpec)
    (spared : EdgeId.last ∉ (g.addEdgeSpecs bindings specs).1) :
    g.ids.Issues [] (g.addEdgeSpecs bindings specs).1 (g.addEdgeSpecs bindings specs).2.2.ids := by
  induction specs generalizing g with
  | nil => exact .refl g.ids
  | cons spec rest ih =>
    unfold addEdgeSpecs at spared ⊢
    cases result : g.addEdgeSpec bindings spec with
    | none =>
      rw [result] at spared
      exact ih g spared
    | some pair =>
      obtain ⟨id, h⟩ := pair
      obtain ⟨src, dest, _, _, added⟩ := addEdgeSpec_eq_some result
      obtain ⟨rfl, _, rfl⟩ := addEdge_eq_ok added
      simp only [result, List.mem_cons, not_or] at spared
      have first : g.ids.Issues [] [g.ids.peekEdge] g.ids.takeEdge.2 := .takeEdge (Ne.symm spared.1)
      exact first.trans (ih _ spared.2)

theorem insertSubgraph_issues (g : Graph) (spec : SubgraphSpec)
    (spared : SparesLast (g.insertSubgraph spec).1.addedNodes (g.insertSubgraph spec).1.addedEdges) :
    g.ids.Issues (g.insertSubgraph spec).1.addedNodes (g.insertSubgraph spec).1.addedEdges
      (g.insertSubgraph spec).2.ids := by
  have nodes := addNodes_issues g spec.nodes spared.1
  have edges := addEdgeSpecs_issues _ _ spec.edges spared.2
  have both := nodes.trans edges
  rw [List.append_nil] at both
  exact both

theorem applyAt_issues (g : Graph) (kind : RuleKind) (site : Site)
    (spared : SparesLast (g.applyAt kind site).1.addedNodes (g.applyAt kind site).1.addedEdges) :
    g.ids.Issues (g.applyAt kind site).1.addedNodes (g.applyAt kind site).1.addedEdges
      (g.applyAt kind site).2.ids := by
  revert spared
  rcases g.applyAt_cases kind site with
    rests | ⟨_, _, id, _, writes⟩ | ⟨_, _, id, _, writes⟩ | ⟨_, build, id, src, dest, _, replaces⟩
  · rw [rests]
    exact fun _ => .refl g.ids
  · rw [writes]
    exact fun _ => .refl g.ids
  · rw [writes]
    exact fun _ => .refl g.ids
  · rw [replaces]
    rcases g.replaceEdge_cases build id src dest with
      rests | ⟨m, _, ⟨_, erases⟩ | ⟨spec, _, inserts⟩⟩
    · rw [rests]
      exact fun _ => .refl g.ids
    · rw [erases]
      exact fun _ => .refl g.ids
    · rw [inserts]
      exact insertSubgraph_issues (g.eraseEdge id) spec

end Graph

end GraphGrammar
