import GraphGrammar.Proofs.Graph.Application
import GraphGrammar.Proofs.Graph.Listing
import GraphGrammar.Proofs.Graph.Sound
import Mathlib.Algebra.GroupWithZero.Nat

/-!
Tallies: a number for each node and each edge, by its label, summed over a graph. An insertion adds no
more than the number of the new record, an erasure takes the number of the old one away, and a write
exchanges the two.
-/

namespace GraphGrammar

open Std (ExtTreeMap)

section

variable {α β : Type} {cmp : α → α → Ordering} [Std.TransCmp cmp] [Std.LawfulEqCmp cmp]
  {m : ExtTreeMap α β cmp} {k : α} {v : β}

def tally (f : β → Nat) (m : ExtTreeMap α β cmp) : Nat := (m.values.map f).sum

omit [Std.LawfulEqCmp cmp] in
theorem nodup_toList (m : ExtTreeMap α β cmp) : m.toList.Nodup := by
  have keys : (m.toList.map Prod.fst).Nodup := by
    rw [ExtTreeMap.map_fst_toList_eq_keys]
    exact ExtTreeMap.nodup_keys
  refine List.Pairwise.of_map Prod.fst ?_ keys
  intro entry other apart same
  exact apart (congrArg Prod.fst same)

theorem toList_perm_cons_erase (found : m[k]? = some v) :
    m.toList.Perm ((k, v) :: (m.erase k).toList) := by
  have apart : (k, v) ∉ (m.erase k).toList := by
    simp [ExtTreeMap.mem_toList_iff_getElem?_eq_some]
  refine (List.perm_ext_iff_of_nodup (nodup_toList m)
    (List.nodup_cons.mpr ⟨apart, nodup_toList _⟩)).mpr ?_
  rintro ⟨j, w⟩
  simp only [List.mem_cons, ExtTreeMap.mem_toList_iff_getElem?_eq_some, ExtTreeMap.getElem?_erase,
    Std.LawfulEqCmp.compare_eq_iff_eq, Prod.mk.injEq]
  by_cases same : k = j
  · subst same
    simp [found, eq_comm]
  · simp [same, Ne.symm same]

theorem tally_eq_add_erase (f : β → Nat) (found : m[k]? = some v) :
    tally f m = f v + tally f (m.erase k) := by
  have sums := ((toList_perm_cons_erase found).map fun entry => f entry.2).sum_nat
  simpa [tally, values_eq_map_toList, Function.comp_def] using sums

theorem tally_erase_le (f : β → Nat) (m : ExtTreeMap α β cmp) (k : α) :
    tally f (m.erase k) ≤ tally f m := by
  cases found : m[k]? with
  | none =>
    have same : m.erase k = m := by
      apply ExtTreeMap.ext_getElem?
      intro j
      rw [ExtTreeMap.getElem?_erase]
      split
      · next here =>
        cases Std.LawfulEqCmp.compare_eq_iff_eq.mp here
        exact found.symm
      · rfl
    exact Nat.le_of_eq (congrArg _ same)
  | some v =>
    rw [tally_eq_add_erase f found]
    exact Nat.le_add_left _ _

theorem tally_insert_le (f : β → Nat) (m : ExtTreeMap α β cmp) (k : α) (v : β) :
    tally f (m.insert k v) ≤ tally f m + f v := by
  have found : (m.insert k v)[k]? = some v := by simp
  have same : (m.insert k v).erase k = m.erase k := by
    apply ExtTreeMap.ext_getElem?
    intro j
    simp only [ExtTreeMap.getElem?_erase, ExtTreeMap.getElem?_insert]
    split <;> rfl
  have less := tally_erase_le f m k
  rw [tally_eq_add_erase f found, same]
  omega

theorem tally_modify (f : β → Nat) (found : m[k]? = some v) (u : β → β) :
    tally f (m.modify k u) + f v = tally f m + f (u v) := by
  have written : (m.modify k u)[k]? = some (u v) := by simp [found]
  have same : (m.modify k u).erase k = m.erase k := by
    apply ExtTreeMap.ext_getElem?
    intro j
    simp only [ExtTreeMap.getElem?_erase, ExtTreeMap.getElem?_modify]
    split <;> rfl
  rw [tally_eq_add_erase f written, tally_eq_add_erase f found, same]
  omega

theorem tally_eq_zero_iff {f : β → Nat} : tally f m = 0 ↔ ∀ {k : α} {v}, m[k]? = some v → f v = 0 := by
  rw [tally, List.sum_eq_zero_iff_forall_eq_nat, List.forall_mem_map]
  constructor
  · exact fun none k v found => none v (mem_values_iff.mpr ⟨k, found⟩)
  · intro none v listed
    obtain ⟨k, found⟩ := mem_values_iff.mp listed
    exact none found

end

/-- A number for each label of a node and of an edge. -/
structure Effort where
  node : Label → Nat
  edge : Label → Nat

namespace Effort

variable (effort : Effort)

def nodes (specs : List NodeSpec) : Nat := (specs.map fun spec => effort.node spec.label).sum

def edges (bindings : Bindings) (specs : List EdgeSpec) : Nat :=
  (specs.map fun spec => effort.edge (spec.label.mapStrings bindings.text?)).sum

def total (g : Graph) : Nat :=
  tally (fun n => effort.node n.label) g.nodeMap + tally (fun e => effort.edge e.label) g.edgeMap

open GraphGrammar.Graph

theorem total_eq_zero_iff {effort : Effort} (free : ∀ label, effort.node label = 0) {g : Graph} :
    effort.total g = 0 ↔ ∀ {id edge}, g.edge? id = some edge → effort.edge edge.label = 0 := by
  have nodes : tally (fun n : Node => effort.node n.label) g.nodeMap = 0 :=
    tally_eq_zero_iff.mpr fun _ => free _
  rw [total, nodes, Nat.zero_add]
  exact tally_eq_zero_iff

theorem total_addNode_le (g : Graph) (label : Label) :
    effort.total (g.addNode label).2 ≤ effort.total g + effort.node label := by
  have nodes : effort.total (g.addNode label).2 ≤
      tally _ g.nodeMap + effort.node label + tally _ g.edgeMap :=
    Nat.add_le_add_right (tally_insert_le _ g.nodeMap g.ids.peekNode ⟨_, label⟩) _
  rw [Nat.add_right_comm] at nodes
  exact nodes

theorem total_addEdge_le {g h : Graph} {src dest : NodeId} {label : Label} {prereq : Option Label}
    {id : EdgeId} (added : g.addEdge src dest label prereq = .ok (id, h)) :
    effort.total h ≤ effort.total g + effort.edge label := by
  obtain ⟨rfl, _, rfl⟩ := addEdge_eq_ok added
  have edges : tally _ (g.edgeMap.insert g.ids.peekEdge ⟨g.ids.peekEdge, src, dest, label, prereq⟩) ≤
      tally _ g.edgeMap + effort.edge label := tally_insert_le (fun e : Edge => effort.edge e.label) ..
  simp only [total, putEdge]
  omega

theorem total_addNodes_le (g : Graph) (specs : List NodeSpec) :
    effort.total (g.addNodes specs).2 ≤ effort.total g + effort.nodes specs := by
  induction specs generalizing g with
  | nil => exact Nat.le_refl _
  | cons spec rest ih =>
    have first := effort.total_addNode_le g spec.label
    have tail := ih (g.addNode spec.label).2
    rw [addNodes_cons]
    simp only [nodes, List.map_cons, List.sum_cons] at tail ⊢
    omega

theorem total_addEdgeSpecs_le (g : Graph) (bindings : Bindings) (specs : List EdgeSpec) :
    effort.total (g.addEdgeSpecs bindings specs).2.2 ≤
      effort.total g + effort.edges bindings specs := by
  induction specs generalizing g with
  | nil => exact Nat.le_refl _
  | cons spec rest ih =>
    simp only [edges, List.map_cons, List.sum_cons] at ih ⊢
    unfold addEdgeSpecs
    cases result : g.addEdgeSpec bindings spec with
    | none => exact Nat.le_trans (ih g) (by omega)
    | some pair =>
      obtain ⟨src, dest, _, _, added⟩ := addEdgeSpec_eq_some result
      have first : effort.total pair.2 ≤
          effort.total g + effort.edge (spec.label.mapStrings bindings.text?) :=
        effort.total_addEdge_le added
      exact Nat.le_trans (ih pair.2) (by omega)

theorem total_insertSubgraph_le (g : Graph) (spec : SubgraphSpec) :
    effort.total (g.insertSubgraph spec).2 ≤
      effort.total g + effort.nodes spec.nodes +
        effort.edges (g.addNodes spec.nodes).1 spec.edges := by
  have nodes := effort.total_addNodes_le g spec.nodes
  have edges := effort.total_addEdgeSpecs_le (g.addNodes spec.nodes).2 (g.addNodes spec.nodes).1
    spec.edges
  have same : (g.insertSubgraph spec).2 =
      ((g.addNodes spec.nodes).2.addEdgeSpecs (g.addNodes spec.nodes).1 spec.edges).2.2 := rfl
  rw [same]
  omega

theorem total_eraseEdge {g : Graph} {id : EdgeId} {edge : Edge} (found : g.edge? id = some edge) :
    effort.total (g.eraseEdge id) + effort.edge edge.label = effort.total g := by
  have edges : tally _ g.edgeMap = effort.edge edge.label + tally _ (g.edgeMap.erase id) :=
    tally_eq_add_erase (fun e : Edge => effort.edge e.label) found
  simp only [total, eraseEdge]
  omega

theorem total_modifyNodeLabel {g : Graph} {id : NodeId} {node : Node}
    (found : g.node? id = some node) (f : Label → Label) :
    effort.total (g.modifyNodeLabel id f) + effort.node node.label =
      effort.total g + effort.node (f node.label) := by
  have nodes : tally _ (g.nodeMap.modify id _) + effort.node node.label =
      tally _ g.nodeMap + effort.node (f node.label) :=
    tally_modify (fun n : Node => effort.node n.label) found fun n => { n with label := f n.label }
  simp only [total, modifyNodeLabel]
  omega

theorem total_modifyEdgeLabel {g : Graph} {id : EdgeId} {edge : Edge}
    (found : g.edge? id = some edge) (f : Label → Label) :
    effort.total (g.modifyEdgeLabel id f) + effort.edge edge.label =
      effort.total g + effort.edge (f edge.label) := by
  have edges : tally _ (g.edgeMap.modify id _) + effort.edge edge.label =
      tally _ g.edgeMap + effort.edge (f edge.label) :=
    tally_modify (fun e : Edge => effort.edge e.label) found fun e => { e with label := f e.label }
  simp only [total, modifyEdgeLabel]
  omega

end Effort

end GraphGrammar
