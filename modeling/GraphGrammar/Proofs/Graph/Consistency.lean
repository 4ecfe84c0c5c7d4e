import GraphGrammar.Graph.Document
import GraphGrammar.Proofs.Graph.Listing
import GraphGrammar.Proofs.Id.Counter

/-!
Which documents load. A document is consistent if its nodes have ids of their own, and so have its edges, and if the
ends of its edges are listed. Loading accepts exactly the consistent documents, and the order in which they list nodes
and edges does not matter to the graph. It matters to what is reported of any other document: the first of its faults.
-/

namespace GraphGrammar

def Node.faults (earlier : List Node) (node : Node) : List GraphError :=
  if node.id ∈ earlier.map Node.id then [.duplicateNode node.id] else []

/-- What is wrong with an edge between the given nodes that is listed behind others, in the order of the checks. -/
def Edge.faults (nodes : List Node) (earlier : List Edge) (edge : Edge) : List GraphError :=
  (if edge.id ∈ earlier.map Edge.id then [.duplicateEdge edge.id] else []) ++
    ([edge.src, edge.dest].filter (· ∉ nodes.map Node.id)).map (.danglingEndpoint edge.id)

def faultsInRow {α : Type} (faults : List α → α → List GraphError) (earlier : List α) : List α → List GraphError
  | [] => []
  | a :: rest => faults earlier a ++ faultsInRow faults (earlier ++ [a]) rest

/-- One past the greatest of some numbers, as far as a word can tell, and zero if there are none. -/
def onePast (indices : List UInt64) : Nat :=
  min ((indices.map (·.toNat + 1)).foldr max 0) lastIndex.toNat

namespace GraphDocument

/-- All faults of a document, in the order of reading: those of the nodes, then those of the edges. -/
def faults (d : GraphDocument) : List GraphError :=
  faultsInRow Node.faults [] d.nodes ++ faultsInRow (Edge.faults d.nodes) [] d.edges

structure Consistent (d : GraphDocument) : Prop where
  nodes : (d.nodes.map Node.id).Nodup
  edges : (d.edges.map Edge.id).Nodup
  ends : ∀ e ∈ d.edges, e.src ∈ d.nodes.map Node.id ∧ e.dest ∈ d.nodes.map Node.id

/-- The graph has the nodes and edges of the document and no others. Each of its counters is the one of the document or
one past the greatest id, whichever is greater. -/
structure Describes (d : GraphDocument) (g : Graph) : Prop where
  node : ∀ {id : NodeId} {node : Node}, g.node? id = some node ↔ node ∈ d.nodes ∧ node.id = id
  edge : ∀ {id : EdgeId} {edge : Edge}, g.edge? id = some edge ↔ edge ∈ d.edges ∧ edge.id = id
  nextNode : g.ids.nextNode.toNat = max d.nextNode.toNat (onePast (d.nodes.map (·.id.index)))
  nextEdge : g.ids.nextEdge.toNat = max d.nextEdge.toNat (onePast (d.edges.map (·.id.index)))

end GraphDocument

section

variable {α κ : Type} {faults : List α → α → List GraphError}

/-- Items in a row are without faults if their keys are new and each item is right in itself. -/
theorem faultsInRow_eq_nil_iff {key : α → κ} {Right : α → Prop}
    (faultless : ∀ earlier a, faults earlier a = [] ↔ key a ∉ earlier.map key ∧ Right a) {earlier items : List α} :
    faultsInRow faults earlier items = [] ↔
      (items.map key).Nodup ∧ ∀ a ∈ items, key a ∉ earlier.map key ∧ Right a := by
  induction items generalizing earlier with
  | nil => simp [faultsInRow]
  | cons a rest ih =>
    rw [faultsInRow, List.append_eq_nil_iff, faultless, ih, List.map_cons, List.nodup_cons, List.forall_mem_cons]
    simp only [List.map_append, List.map_cons, List.map_nil, List.mem_append, List.mem_singleton, not_or]
    constructor
    · rintro ⟨here, distinct, later⟩
      refine ⟨⟨fun again => ?_, distinct⟩, here, fun b listed => ⟨(later b listed).1.1, (later b listed).2⟩⟩
      obtain ⟨b, listed, same⟩ := List.mem_map.mp again
      exact (later b listed).1.2 same
    · rintro ⟨⟨apart, distinct⟩, here, later⟩
      refine ⟨here, distinct, fun b listed => ⟨⟨(later b listed).1, fun same => ?_⟩, (later b listed).2⟩⟩
      exact apart (List.mem_map.mpr ⟨b, listed, same⟩)

theorem found_concat_iff [DecidableEq κ] {key : α → κ} {items : List α} {k : κ} {found : Option α}
    (before : ∀ {b}, found = some b ↔ b ∈ items ∧ key b = k) {a : α} (new : key a ∉ items.map key) {b : α} :
    (if key a = k then some a else found) = some b ↔ b ∈ items ++ [a] ∧ key b = k := by
  rw [List.mem_append, List.mem_singleton]
  split
  · next here =>
    constructor
    · rintro ⟨⟩
      exact ⟨.inr rfl, here⟩
    · rintro ⟨listed | rfl, there⟩
      · exact absurd (List.mem_map.mpr ⟨b, listed, there.trans here.symm⟩) new
      · rfl
  · next elsewhere =>
    rw [before]
    constructor
    · rintro ⟨listed, there⟩
      exact ⟨.inl listed, there⟩
    · rintro ⟨listed | rfl, there⟩
      · exact ⟨listed, there⟩
      · exact absurd there elsewhere

/-- A result follows from faults: it is the first of them, or something with a property if there are none. -/
def Decides {β : Type} (faults : List GraphError) (Holds : β → Prop) (result : Except GraphError β) : Prop :=
  match faults with
  | [] => ∃ b, result = .ok b ∧ Holds b
  | first :: _ => result = .error first

theorem Decides.bind {β γ : Type} {first rest : List GraphError} {Holds : β → Prop} {Holds' : γ → Prop}
    {result : Except GraphError β} {next : β → Except GraphError γ} (decides : Decides first Holds result)
    (later : ∀ b, Holds b → Decides rest Holds' (next b)) : Decides (first ++ rest) Holds' (result >>= next) := by
  cases first with
  | nil =>
    obtain ⟨b, rfl, holds⟩ := decides
    exact later b holds
  | cons e more =>
    cases decides
    exact rfl

section

variable {β : Type} {row : List GraphError} {Holds : β → Prop} {result : Except GraphError β}

theorem Decides.exists_ok_iff (decides : Decides row Holds result) : (∃ b, result = .ok b) ↔ row = [] := by
  cases row with
  | nil =>
    obtain ⟨b, rfl, _⟩ := decides
    exact ⟨fun _ => rfl, fun _ => ⟨b, rfl⟩⟩
  | cons first more =>
    cases decides
    exact ⟨fun ⟨_, given⟩ => (nomatch given), fun none => nomatch none⟩

theorem Decides.eq_error_iff (decides : Decides row Holds result) {e : GraphError} :
    result = .error e ↔ row.head? = some e := by
  cases row with
  | nil =>
    obtain ⟨b, rfl, _⟩ := decides
    exact ⟨fun given => (nomatch given), fun none => nomatch none⟩
  | cons first more =>
    cases decides
    rw [Except.error.injEq, List.head?_cons, Option.some.injEq]

theorem Decides.of_ok (decides : Decides row Holds result) {b : β} (given : result = .ok b) : Holds b := by
  subst given
  cases row with
  | nil =>
    obtain ⟨_, ⟨⟩, holds⟩ := decides
    exact holds
  | cons first more => cases decides

end

theorem decides_foldlM {insert : Graph → α → Except GraphError Graph} (Holds : List α → Graph → Prop)
    (step : ∀ earlier a g, Holds earlier g → Decides (faults earlier a) (Holds (earlier ++ [a])) (insert g a))
    {earlier : List α} {g : Graph} (start : Holds earlier g) (items : List α) :
    Decides (faultsInRow faults earlier items) (Holds (earlier ++ items)) (items.foldlM insert g) := by
  induction items generalizing earlier g with
  | nil =>
    rw [List.append_nil]
    exact ⟨g, rfl, start⟩
  | cons a rest ih =>
    rw [List.foldlM_cons, List.append_cons]
    exact (step earlier a g start).bind fun _ holds => ih holds

end

theorem onePast_cons (i : UInt64) (rest : List UInt64) :
    onePast (i :: rest) = max (Allocator.successor i).toNat (onePast rest) := by
  rw [Allocator.toNat_successor_eq_min, onePast, onePast, List.map_cons, List.foldr_cons]
  omega

theorem onePast_perm {indices others : List UInt64} (perm : indices.Perm others) :
    onePast indices = onePast others := by
  have greatest := (perm.map (·.toNat + 1)).foldr_eq' (f := max) (fun _ _ _ _ _ => Nat.max_left_comm ..) 0
  rw [onePast, onePast, greatest]

theorem onePast_concat (indices : List UInt64) (i : UInt64) :
    onePast (indices ++ [i]) = max (onePast indices) (Allocator.successor i).toNat := by
  rw [onePast_perm (List.perm_append_singleton i indices), onePast_cons, Nat.max_comm]

theorem onePast_le_iff {indices : List UInt64} {n : UInt64} :
    onePast indices ≤ n.toNat ↔ ∀ i ∈ indices, Allocator.successor i ≤ n := by
  induction indices with
  | nil => simp [onePast]
  | cons i rest ih => rw [onePast_cons, Nat.max_le, ih, List.forall_mem_cons, UInt64.le_iff_toNat_le]

theorem Graph.insertEdge_eq_bind (g : Graph) (edge : Edge) : g.insertEdge edge = (do
    (if g.hasEdge edge.id then .error (.duplicateEdge edge.id) else .ok ())
    let present ← g.checkEndpoints edge.id edge.src edge.dest
    .ok (g.putEdge edge (g.ids.observeEdge edge.id) present.down)) := by
  unfold insertEdge
  cases g.hasEdge edge.id <;> rfl

namespace GraphDocument

variable {d : GraphDocument} {g h : Graph}

theorem consistent_iff : d.Consistent ↔ d.faults = [] := by
  have node (earlier : List Node) (n : Node) : n.faults earlier = [] ↔ n.id ∉ earlier.map Node.id ∧ True := by
    simp [Node.faults]
  have edge (earlier : List Edge) (e : Edge) : e.faults d.nodes earlier = [] ↔
      e.id ∉ earlier.map Edge.id ∧ e.src ∈ d.nodes.map Node.id ∧ e.dest ∈ d.nodes.map Node.id := by
    simp [Edge.faults]
  rw [faults, List.append_eq_nil_iff, faultsInRow_eq_nil_iff node, faultsInRow_eq_nil_iff edge]
  constructor
  · rintro ⟨nodes, edges, ends⟩
    exact ⟨⟨nodes, by simp⟩, edges, by simpa using ends⟩
  · rintro ⟨⟨nodes, _⟩, edges, ends⟩
    exact ⟨nodes, edges, by simpa using ends⟩

theorem Describes.hasNode (describes : d.Describes g) (id : NodeId) :
    g.hasNode id = true ↔ id ∈ d.nodes.map Node.id := by
  rw [Graph.hasNode_eq, Option.isSome_iff_exists, List.mem_map]
  exact exists_congr fun _ => describes.node

theorem Describes.hasEdge (describes : d.Describes g) (id : EdgeId) :
    g.hasEdge id = true ↔ id ∈ d.edges.map Edge.id := by
  rw [Graph.hasEdge_eq, Option.isSome_iff_exists, List.mem_map]
  exact exists_congr fun _ => describes.edge

theorem Describes.unique (describes : d.Describes g) (describes' : d.Describes h) : g = h := by
  refine Graph.eq_of_lookup (fun id => ?_) (fun id => ?_) ?_
  · exact Option.ext fun node => describes.node.trans describes'.node.symm
  · exact Option.ext fun edge => describes.edge.trans describes'.edge.symm
  · have node := describes.nextNode.trans describes'.nextNode.symm
    have edge := describes.nextEdge.trans describes'.nextEdge.symm
    rw [Allocator.mk.injEq]
    exact ⟨UInt64.toNat_inj.mp node, UInt64.toNat_inj.mp edge⟩

theorem describes_empty : (GraphDocument.mk [] [] 0 0).Describes ∅ where
  node := by simp [Graph.node?_empty]
  edge := by simp [Graph.edge?_empty]
  nextNode := rfl
  nextEdge := rfl

theorem Describes.insertNode {nodes : List Node} {edges : List Edge}
    (describes : (GraphDocument.mk nodes edges 0 0).Describes g) (node : Node) :
    Decides (node.faults nodes) (GraphDocument.mk (nodes ++ [node]) edges 0 0).Describes (g.insertNode node) := by
  unfold Node.faults
  split
  · next again =>
    have taken := (describes.hasNode node.id).mpr again
    exact Graph.insertNode_eq_error_iff.mpr ⟨taken, rfl⟩
  · next new =>
    have free : ¬g.hasNode node.id = true := fun taken => new ((describes.hasNode node.id).mp taken)
    have inserted : g.insertNode node = .ok _ := if_neg free
    refine ⟨_, inserted, ?_, describes.edge, ?_, describes.nextEdge⟩
    · intro id n
      rw [Graph.node?_insertNode inserted]
      exact found_concat_iff describes.node new
    · have counter := describes.nextNode
      rw [Allocator.observeNode, UInt64.toNat_max, counter]
      simp only [List.map_append, List.map_cons, List.map_nil, onePast_concat, Nat.max_assoc]

theorem Describes.checkEndpoints (describes : d.Describes g) (edge : EdgeId) (src dest : NodeId) :
    Decides (([src, dest].filter (· ∉ d.nodes.map Node.id)).map (.danglingEndpoint edge)) (fun _ => True)
      (g.checkEndpoints edge src dest) := by
  have missing : (fun id => decide (id ∉ d.nodes.map Node.id)) = fun id => !g.hasNode id := by
    funext id
    rw [decide_not, ← decide_eq_decide.mpr (describes.hasNode id), Bool.decide_coe]
  rw [missing]
  simp only [List.filter_cons, List.filter_nil, Bool.not_eq_true']
  rw [Graph.checkEndpoints]
  by_cases srcPresent : g.hasNode src = true
  · by_cases destPresent : g.hasNode dest = true
    · rw [dif_pos srcPresent, dif_pos destPresent, if_neg (by rw [srcPresent]; decide),
        if_neg (by rw [destPresent]; decide)]
      exact ⟨_, rfl, trivial⟩
    · rw [dif_pos srcPresent, dif_neg destPresent, if_neg (by rw [srcPresent]; decide),
        if_pos (Bool.eq_false_iff.mpr destPresent)]
      exact rfl
  · rw [dif_neg srcPresent, if_pos (Bool.eq_false_iff.mpr srcPresent)]
    exact rfl

theorem Describes.insertEdge {nodes : List Node} {edges : List Edge}
    (describes : (GraphDocument.mk nodes edges 0 0).Describes g) (edge : Edge) :
    Decides (edge.faults nodes edges) (GraphDocument.mk nodes (edges ++ [edge]) 0 0).Describes (g.insertEdge edge) := by
  have free : Decides (if edge.id ∈ edges.map Edge.id then [.duplicateEdge edge.id] else [])
      (fun _ => edge.id ∉ edges.map Edge.id)
      (if g.hasEdge edge.id then .error (.duplicateEdge edge.id) else .ok ()) := by
    by_cases taken : edge.id ∈ edges.map Edge.id
    · rw [if_pos taken, if_pos ((describes.hasEdge edge.id).mpr taken)]
      exact rfl
    · rw [if_neg taken, if_neg (taken ∘ (describes.hasEdge edge.id).mp)]
      exact ⟨(), rfl, taken⟩
  rw [Graph.insertEdge_eq_bind]
  refine free.bind fun _ new => ?_
  rw [← List.append_nil (List.map _ _)]
  refine (describes.checkEndpoints edge.id edge.src edge.dest).bind fun _ _ => ?_
  refine ⟨_, rfl, describes.node, ?_, describes.nextNode, ?_⟩
  · intro id e
    rw [Graph.edge?_putEdge]
    exact found_concat_iff describes.edge new
  · have counter := describes.nextEdge
    rw [Graph.putEdge, Allocator.observeEdge, UInt64.toNat_max, counter]
    simp only [List.map_append, List.map_cons, List.map_nil, onePast_concat, Nat.max_assoc]

theorem Describes.resume {nodes : List Node} {edges : List Edge} (nextNode nextEdge : UInt64)
    (describes : (GraphDocument.mk nodes edges 0 0).Describes g) :
    (GraphDocument.mk nodes edges nextNode nextEdge).Describes
      { g with ids := g.ids.resumeFrom ⟨nextNode⟩ ⟨nextEdge⟩ } where
  node := describes.node
  edge := describes.edge
  nextNode := by
    have counter := describes.nextNode
    rw [Allocator.resumeFrom, UInt64.toNat_max, counter]
    simp [Nat.max_comm]
  nextEdge := by
    have counter := describes.nextEdge
    rw [Allocator.resumeFrom, UInt64.toNat_max, counter]
    simp [Nat.max_comm]

/-- Loading reports the first fault of a document, and gives the graph that it describes if it has none. -/
theorem decides_load (d : GraphDocument) : Decides d.faults d.Describes d.load := by
  unfold load
  refine Decides.bind (decides_foldlM (fun nodes => (GraphDocument.mk nodes [] 0 0).Describes)
    (fun _ node _ describes => describes.insertNode node) describes_empty d.nodes) fun g describes => ?_
  rw [← List.append_nil (faultsInRow _ _ _)]
  refine Decides.bind (decides_foldlM (fun edges => (GraphDocument.mk d.nodes edges 0 0).Describes)
    (fun _ edge _ describes => describes.insertEdge edge) describes d.edges) fun g describes => ?_
  exact ⟨_, rfl, describes.resume d.nextNode d.nextEdge⟩

end GraphDocument

end GraphGrammar
