import GraphGrammar.Proofs.Graph.Document
import GraphGrammar.Proofs.Json.RoundTrip

/-!
Graphs that are read back from their own text. The graph has to be sound, its labels have to fit a
document, and its numbers have to be read back from theirs.
-/

namespace GraphGrammar

open Json (Numeral Tree greatestDepth haveReadable areReadable_map haveReadable_optionalMember
  forall_mem_optionalMember)

theorem treesOfItems_eq (items : List Value) : treesOfItems items = items.map Value.toTree := by
  induction items with
  | nil => rfl
  | cons v rest ih => rw [treesOfItems, ih, List.map_cons]

theorem treesOfEntries_eq (entries : List (String × Value)) :
    treesOfEntries entries = entries.map fun e => (e.1, e.2.toTree) := by
  induction entries with
  | nil => rfl
  | cons e rest ih => rw [treesOfEntries, ih, List.map_cons]

section

variable {P : Number → Prop} {Q : Numeral → Prop} (numbers : ∀ x, P x → Q (.real x))

include numbers

theorem Value.within_toTree {levels : Nat} {v : Value} (within : v.Within P levels) :
    v.toTree.Within Q levels := by
  induction within with
  | bool b => exact .bool
  | num ok => exact .number (numbers _ ok)
  | str s => exact .string
  | list _ ih =>
    rw [Value.toTree, treesOfItems_eq]
    refine .array fun t member => ?_
    obtain ⟨v, listed, rfl⟩ := List.mem_map.mp member
    exact ih v listed
  | map _ ih =>
    rw [Value.toTree, treesOfEntries_eq]
    refine .object fun m member => ?_
    obtain ⟨e, listed, rfl⟩ := List.mem_map.mp member
    exact ih e listed

theorem Node.within_toTree {levels : Nat} {node : Node} (within : node.label.Within P levels) :
    node.toTree.Within Q (levels + 1) := by
  have label : node.label.toTree.Within Q levels := Value.within_toTree numbers within
  simp [Node.toTree, label]

theorem Edge.within_toTree {levels : Nat} {edge : Edge}
    (within : edge.Allowed (Label.Within P levels)) : edge.toTree.Within Q (levels + 1) := by
  have label : edge.label.toTree.Within Q levels := Value.within_toTree numbers within.label
  have prereq : ∀ m ∈ Json.optionalMember "prereq" Label.toTree edge.prereq, m.2.Within Q levels :=
    forall_mem_optionalMember.mpr fun p present => Value.within_toTree numbers (within.prereq p present)
  refine .object ?_
  simp only [List.forall_mem_cons]
  exact ⟨.string, .string, .string, label, prereq⟩

theorem Graph.within_toTree {g : Graph} {levels : Nat}
    (within : g.Allowed (Label.Within P levels)) (counters : ∀ n, Q (.natural n)) :
    g.toTree.Within Q (levels + 3) := by
  have nodes : ∀ n ∈ g.nodes, n.toTree.Within Q (levels + 1) := fun n listed =>
    n.within_toTree numbers (within.node (Graph.node?_of_mem listed))
  have edges : ∀ e ∈ g.edges, e.toTree.Within Q (levels + 1) := fun e listed =>
    e.within_toTree numbers (within.edge (Graph.edge?_of_mem listed))
  simpa [Graph.toTree, GraphDocument.toTree, GraphDocument.ofGraph, counters] using ⟨nodes, edges⟩

end

theorem Node.isReadable_toTree (node : Node) : node.toTree.isReadable = true := by
  simp [Node.toTree, Tree.isReadable, haveReadable, node.label.isReadable_toTree]

theorem Edge.isReadable_toTree (edge : Edge) : edge.toTree.isReadable = true := by
  simp [Edge.toTree, Tree.isReadable, haveReadable, edge.label.isReadable_toTree,
    haveReadable_optionalMember Label.isReadable_toTree]

theorem Graph.isReadable_toTree (g : Graph) : g.toTree.isReadable = true := by
  simp [Graph.toTree, GraphDocument.toTree, GraphDocument.ofGraph, Tree.isReadable, haveReadable,
    areReadable_map Node.isReadable_toTree, areReadable_map Edge.isReadable_toTree]

namespace Graph

def labels (g : Graph) : List Label :=
  g.nodes.map Node.label ++ g.edges.flatMap fun e => e.label :: e.prereq.toList

def numbers (g : Graph) : List Number := g.labels.flatMap fun l => l.toValue.numbers

theorem allowed_iff {g : Graph} {P : Label → Prop} : g.Allowed P ↔ ∀ l ∈ g.labels, P l := by
  constructor
  · intro allowed l member
    rcases List.mem_append.mp member with ofNode | ofEdge
    · obtain ⟨n, listed, rfl⟩ := List.mem_map.mp ofNode
      obtain ⟨id, found⟩ := mem_nodes_iff.mp listed
      exact allowed.node found
    · obtain ⟨e, listed, here⟩ := List.mem_flatMap.mp ofEdge
      obtain ⟨id, found⟩ := mem_edges_iff.mp listed
      rcases List.mem_cons.mp here with rfl | inPrereq
      · exact (allowed.edge found).label
      · exact (allowed.edge found).prereq l (Option.mem_toList.mp inPrereq)
  · intro all
    refine ⟨fun found => all _ ?_, fun found => ⟨all _ ?_, fun p member => all p ?_⟩⟩
    · exact List.mem_append_left _ (List.mem_map.mpr ⟨_, mem_nodes_iff.mpr ⟨_, found⟩, rfl⟩)
    · exact List.mem_append_right _
        (List.mem_flatMap.mpr ⟨_, mem_edges_iff.mpr ⟨_, found⟩, List.mem_cons_self⟩)
    · exact List.mem_append_right _ (List.mem_flatMap.mpr ⟨_, mem_edges_iff.mpr ⟨_, found⟩,
        List.mem_cons_of_mem _ (Option.mem_toList.mpr member)⟩)

theorem forall_mem_numbers {g : Graph} {Q : Number → Prop} :
    (∀ x ∈ g.numbers, Q x) ↔ g.Allowed fun l => ∀ x ∈ l.toValue.numbers, Q x := by
  rw [allowed_iff, numbers]
  exact List.forall_mem_flatMap

theorem isFinite_of_mem_numbers {g : Graph} (fits : g.Allowed Label.FitsGraph) :
    ∀ x ∈ g.numbers, x.isFinite = true :=
  forall_mem_numbers.mpr (fits.imp fun _ ok _ member => ok.of_mem_numbers member)

theorem fits_document {g : Graph} (fits : g.Allowed Label.FitsGraph) :
    g.toTree.Within Numeral.IsFinite greatestDepth :=
  Graph.within_toTree (fun _ ok => ok) fits fun n => Number.isFinite_ofNat_number n.toNat_lt

end Graph

namespace Graph.Sound

variable {g : Graph}

theorem ofText_text (sound : g.Sound) (fits : g.Allowed Label.FitsGraph)
    (numbers : ∀ x ∈ g.numbers, x.isFinite = true → (Numeral.real x).ReadsBack) :
    Graph.ofText g.text = .ok g ∧ Graph.ofText (g.toTree.pretty ++ "\n") = .ok g := by
  have labels : g.Allowed (Label.Within (fun x => (Numeral.real x).Scans) (greatestDepth - 3)) :=
    (fits.and (forall_mem_numbers.mp numbers)).imp fun _ ⟨ok, back⟩ =>
      ok.of_numbers fun x member => (back x member (ok.of_mem_numbers member)).writes
  have within : g.toTree.Within Numeral.Scans greatestDepth :=
    Graph.within_toTree (fun _ ok => ok) labels Numeral.writes_natural
  exact Json.readText_of_scans g.isReadable_toTree within sound.readGraph_toTree

end Graph.Sound

end GraphGrammar
