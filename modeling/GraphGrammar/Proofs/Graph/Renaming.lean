import GraphGrammar.Proofs.Graph.Realization

/-!
The names in a description are only names. Where they are all replaced by new ones, at the nodes that declare them, at
the ends of edges and in texts, the same nodes and edges are inserted. A new name may read like an id, as it then
stands for the node that declares it; it must only not be in use already.
-/

namespace GraphGrammar

def Endpoint.names : Endpoint → List String
  | .placeholder name => [name]
  | .node _ => []

def Endpoint.rename (f : String → Option String) : Endpoint → Endpoint
  | .placeholder name => .placeholder ((f name).getD name)
  | .node id => .node id

namespace EdgeSpec

/-- The names of the ends and the texts in the label and in the prerequisite. -/
def strings (e : EdgeSpec) : List String :=
  e.src.names ++ e.dest.names ++ e.label.texts ++ (e.prereq.map Label.texts).getD []

def rename (f : String → Option String) (e : EdgeSpec) : EdgeSpec :=
  { e.mapStrings f with src := e.src.rename f, dest := e.dest.rename f }

end EdgeSpec

namespace SubgraphSpec

/-- What can be taken for a name: the declared names and the strings of all edges. -/
def strings (spec : SubgraphSpec) : List String := spec.names ++ spec.edges.flatMap EdgeSpec.strings

def newName? (spec : SubgraphSpec) (f : String → String) (s : String) : Option String :=
  if s ∈ spec.names then some (f s) else none

def rename (spec : SubgraphSpec) (f : String → String) : SubgraphSpec where
  nodes := spec.nodes.map fun n => { n with name := f n.name }
  edges := spec.edges.map (EdgeSpec.rename (spec.newName? f))

end SubgraphSpec

namespace Bindings

/-- A string means the same in the first bindings as its replacement does in the second ones, and it is only
replaced if it means something. -/
def Agree (bindings other : Bindings) (f : String → Option String) (s : String) : Prop :=
  other.node? ((f s).getD s) = bindings.node? s ∧ (bindings.node? s = none → (f s).getD s = s)

variable {bindings other : Bindings} {f : String → Option String}

theorem node?_map {rename : String → String} {name new : String}
    (same : ∀ old ∈ bindings.map Prod.fst, new = rename old ↔ name = old) :
    node? (bindings.map (Prod.map rename id)) new = node? bindings name := by
  induction bindings with
  | nil => rfl
  | cons b rest ih =>
    simp only [List.map_cons, List.mem_cons, forall_eq_or_imp] at same
    simp [node?_cons, ih same.2, same.1]

theorem resolve?_rename {e : Endpoint} (agree : ∀ s ∈ e.names, bindings.Agree other f s) :
    other.resolve? (e.rename f) = bindings.resolve? e := by
  cases e with
  | node id => rfl
  | placeholder name =>
    obtain ⟨same, kept⟩ := agree name (.head _)
    rw [Endpoint.rename, resolve?, resolve?, same]
    cases found : bindings.node? name with
    | none => rw [kept found]
    | some id => rfl

theorem mapStrings_rename {label : Label} (agree : ∀ s ∈ label.texts, bindings.Agree other f s) :
    (label.mapStrings f).mapStrings other.text? = label.mapStrings bindings.text? := by
  -- Both passes together do to each text what the second one does to its new name.
  let both (s : String) : Option String := some ((other.text? ((f s).getD s)).getD ((f s).getD s))
  have once : (label.mapStrings f).mapStrings other.text? = label.mapStrings both :=
    label.mapStrings_mapStrings fun _ => rfl
  rw [once]
  refine Label.mapStrings_congr fun s member => ?_
  obtain ⟨same, kept⟩ := agree s member
  simp only [both, Option.getD_some, text?, same]
  cases found : bindings.node? s with
  | none => exact kept found
  | some id => rfl

end Bindings

namespace Graph

theorem addNodes_rename (g : Graph) (specs : List NodeSpec) (f : String → String) :
    g.addNodes (specs.map fun n => { n with name := f n.name }) =
      ((g.addNodes specs).1.map (Prod.map f id), (g.addNodes specs).2) := by
  induction specs generalizing g with
  | nil => rfl
  | cons n rest ih => simp [addNodes_cons, ih]

variable {bindings other : Bindings} {f : String → Option String}

theorem addEdgeSpec_rename (g : Graph) {e : EdgeSpec} (agree : ∀ s ∈ e.strings, bindings.Agree other f s) :
    g.addEdgeSpec other (e.rename f) = g.addEdgeSpec bindings e := by
  simp only [EdgeSpec.strings, List.forall_mem_append] at agree
  obtain ⟨⟨⟨src, dest⟩, label⟩, prereq⟩ := agree
  have bound : (e.rename f).mapStrings other.text? =
      { e.mapStrings bindings.text? with src := e.src.rename f, dest := e.dest.rename f } := by
    have inPrereq : (e.prereq.map (Label.mapStrings f)).map (Label.mapStrings other.text?) =
        e.prereq.map (Label.mapStrings bindings.text?) := by
      cases given : e.prereq with
      | none => rfl
      | some p =>
        rw [given] at prereq
        exact congrArg some (Bindings.mapStrings_rename prereq)
    simp only [EdgeSpec.rename, EdgeSpec.mapStrings, Bindings.mapStrings_rename label, inPrereq]
  have ends : (e.rename f).src = e.src.rename f ∧ (e.rename f).dest = e.dest.rename f := ⟨rfl, rfl⟩
  simp only [addEdgeSpec, bound, ends, Bindings.resolve?_rename src, Bindings.resolve?_rename dest]

theorem addEdgeSpecs_rename (g : Graph) {specs : List EdgeSpec}
    (agree : ∀ e ∈ specs, ∀ s ∈ e.strings, bindings.Agree other f s) :
    g.addEdgeSpecs other (specs.map (EdgeSpec.rename f)) = g.addEdgeSpecs bindings specs := by
  induction specs generalizing g with
  | nil => rfl
  | cons e rest ih =>
    simp only [List.forall_mem_cons] at agree
    simp only [List.map_cons, addEdgeSpecs, addEdgeSpec_rename g agree.1, fun h => ih h agree.2]

/-- The names that are declared in a description may be exchanged for any others that do not occur in it. -/
theorem insertSubgraph_rename (g : Graph) (spec : SubgraphSpec) {f : String → String}
    (injective : ∀ a ∈ spec.names, ∀ b ∈ spec.names, f a = f b → a = b)
    (fresh : ∀ name ∈ spec.names, f name ∉ spec.strings) :
    g.insertSubgraph (spec.rename f) = g.insertSubgraph spec := by
  have names : (g.addNodes spec.nodes).1.map Prod.fst = spec.names := g.addNodes_names spec.nodes
  have agree : ∀ s ∈ spec.strings,
      (g.addNodes spec.nodes).1.Agree ((g.addNodes spec.nodes).1.map (Prod.map f id)) (spec.newName? f) s := by
    intro s occurs
    rw [Bindings.Agree, Bindings.node?_eq_none_iff, names, SubgraphSpec.newName?]
    by_cases declared : s ∈ spec.names
    · rw [if_pos declared]
      refine ⟨Bindings.node?_map fun old member => ?_, fun absent => absurd declared absent⟩
      rw [names] at member
      exact ⟨injective s declared old member, congrArg f⟩
    · rw [if_neg declared]
      refine ⟨Bindings.node?_map fun old member => ?_, fun _ => rfl⟩
      rw [names] at member
      constructor
      · rintro rfl
        exact absurd occurs (fresh old member)
      · rintro rfl
        exact absurd member declared
  have edges (h : Graph) : h.addEdgeSpecs ((g.addNodes spec.nodes).1.map (Prod.map f id))
      (spec.edges.map (EdgeSpec.rename (spec.newName? f))) =
        h.addEdgeSpecs (g.addNodes spec.nodes).1 spec.edges :=
    addEdgeSpecs_rename h fun e member s inside =>
      agree s (List.mem_append_right _ (List.mem_flatMap.mpr ⟨e, member, inside⟩))
  simp only [insertSubgraph, SubgraphSpec.rename, addNodes_rename, edges, List.map_map]
  rfl

/-- A name that is declared twice becomes an id, one that is an id no longer is, and an end that is no name keeps
meaning the node of which it is the id. -/
theorem insertSubgraph_rename_to_ids :
    let g := (history ∅ [.addNode ∅, .addNode ∅]).graph
    let spec : SubgraphSpec := ⟨[⟨"a", ∅⟩, ⟨"n1", .ofList [("role", .str "a")]⟩, ⟨"a", ∅⟩], [
      ⟨.placeholder "a", .placeholder "n1", .ofList [("via", .list [.str "a", .str "n0"])],
        some (.ofList [("node_id", .str "n1")])⟩,
      ⟨.placeholder "n0", .placeholder "b", ∅, none⟩]⟩
    let f (name : String) : String := if name = "a" then "n2" else "m"
    let renamed : SubgraphSpec := ⟨[⟨"n2", ∅⟩, ⟨"m", .ofList [("role", .str "a")]⟩, ⟨"n2", ∅⟩], [
      ⟨.placeholder "n2", .placeholder "m", .ofList [("via", .list [.str "n2", .str "n0"])],
        some (.ofList [("node_id", .str "m")])⟩,
      ⟨.placeholder "n0", .placeholder "b", ∅, none⟩]⟩
    (∀ a ∈ spec.names, ∀ b ∈ spec.names, f a = f b → a = b) ∧ (∀ name ∈ spec.names, f name ∉ spec.strings) ∧
      spec.rename f = renamed ∧ g.insertSubgraph renamed = g.insertSubgraph spec := by
  intro g spec f renamed
  have injective : ∀ a ∈ spec.names, ∀ b ∈ spec.names, f a = f b → a = b := by decide +kernel
  have fresh : ∀ name ∈ spec.names, f name ∉ spec.strings := by decide +kernel
  have same : spec.rename f = renamed := rfl
  exact ⟨injective, fresh, same, same ▸ insertSubgraph_rename g spec injective fresh⟩

end Graph

end GraphGrammar
