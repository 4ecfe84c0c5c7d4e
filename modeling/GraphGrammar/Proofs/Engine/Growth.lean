import GraphGrammar.Proofs.Engine.Follow
import GraphGrammar.Proofs.Graph.Application

/-!
How fast ids are used up. A step takes no more ids than the descriptions of its rules have nodes and
edges, so a short enough run does not come to the end of the counters.
-/

namespace GraphGrammar

open GraphGrammar.Graph (SparesLast)

/-- Ids are taken: the counters go at most so many steps ahead, and the ids are below their bounds. -/
structure Allocator.Takes (a : Allocator) (nodes : List NodeId) (edges : List EdgeId) (b : Allocator)
    (n e : Nat) : Prop where
  nextNode : b.nextNode.toNat ≤ a.nextNode.toNat + n
  nextEdge : b.nextEdge.toNat ≤ a.nextEdge.toNat + e
  nodes : ∀ id ∈ nodes, id.index.toNat < a.nextNode.toNat + n
  edges : ∀ id ∈ edges, id.index.toNat < a.nextEdge.toNat + e

namespace Allocator.Takes

variable {a b c : Allocator} {nodes moreNodes : List NodeId} {edges moreEdges : List EdgeId}
  {n e n' e' : Nat}

theorem none (a : Allocator) (n e : Nat) : a.Takes [] [] a n e where
  nextNode := Nat.le_add_right _ _
  nextEdge := Nat.le_add_right _ _
  nodes _ member := nomatch member
  edges _ member := nomatch member

theorem trans (first : a.Takes nodes edges b n e) (rest : b.Takes moreNodes moreEdges c n' e') :
    a.Takes (nodes ++ moreNodes) (edges ++ moreEdges) c (n + n') (e + e') where
  nextNode := by
    have left := first.nextNode
    have right := rest.nextNode
    omega
  nextEdge := by
    have left := first.nextEdge
    have right := rest.nextEdge
    omega
  nodes id member := by
    have counter := first.nextNode
    rcases List.mem_append.mp member with now | later
    · have below := first.nodes id now
      omega
    · have below := rest.nodes id later
      omega
  edges id member := by
    have counter := first.nextEdge
    rcases List.mem_append.mp member with now | later
    · have below := first.edges id now
      omega
    · have below := rest.edges id later
      omega

theorem mono (takes : a.Takes nodes edges b n e) (moreN : n ≤ n') (moreE : e ≤ e') :
    a.Takes nodes edges b n' e' where
  nextNode := by
    have bound := takes.nextNode
    omega
  nextEdge := by
    have bound := takes.nextEdge
    omega
  nodes id member := by
    have bound := takes.nodes id member
    omega
  edges id member := by
    have bound := takes.edges id member
    omega

theorem sparesLast (takes : a.Takes nodes edges b n e) (node : a.nextNode.toNat + n < UInt64.size)
    (edge : a.nextEdge.toNat + e < UInt64.size) : SparesLast nodes edges := by
  have last : lastIndex.toNat + 1 = UInt64.size := rfl
  constructor
  · intro member
    have below : lastIndex.toNat < a.nextNode.toNat + n := takes.nodes _ member
    omega
  · intro member
    have below : lastIndex.toNat < a.nextEdge.toNat + e := takes.edges _ member
    omega

end Allocator.Takes

theorem toNat_add_one_le (n : UInt64) : (n + 1).toNat ≤ n.toNat + 1 := by
  rw [UInt64.toNat_add]
  exact Nat.mod_le _ _

namespace Graph

theorem addNodes_takes (g : Graph) (specs : List NodeSpec) :
    g.ids.Takes ((g.addNodes specs).1.map Prod.snd) [] (g.addNodes specs).2.ids specs.length 0 := by
  induction specs generalizing g with
  | nil => exact .none g.ids 0 0
  | cons spec rest ih =>
    have first : g.ids.Takes [g.ids.peekNode] [] (g.addNode spec.label).2.ids 1 0 := by
      refine ⟨toNat_add_one_le _, Nat.le_refl _, fun id member => ?_, fun _ member => nomatch member⟩
      cases List.mem_singleton.mp member
      exact Nat.lt_succ_self _
    have both := first.trans (ih (g.addNode spec.label).2)
    rw [Nat.add_comm 1] at both
    exact both

theorem addEdgeSpecs_takes (g : Graph) (bindings : Bindings) (specs : List EdgeSpec) :
    g.ids.Takes [] (g.addEdgeSpecs bindings specs).1 (g.addEdgeSpecs bindings specs).2.2.ids 0
      specs.length := by
  induction specs generalizing g with
  | nil => exact .none g.ids 0 0
  | cons spec rest ih =>
    unfold addEdgeSpecs
    cases result : g.addEdgeSpec bindings spec with
    | none => exact (ih g).mono (Nat.le_refl 0) (Nat.le_succ _)
    | some pair =>
      obtain ⟨id, h⟩ := pair
      obtain ⟨src, dest, _, _, added⟩ := addEdgeSpec_eq_some result
      obtain ⟨same, _, put⟩ := addEdge_eq_ok added
      have first : g.ids.Takes [] [id] h.ids 0 1 := by
        rw [put]
        refine ⟨Nat.le_refl _, toNat_add_one_le _, fun _ member => absurd member List.not_mem_nil, fun k member => ?_⟩
        cases List.mem_singleton.mp member
        rw [same]
        exact Nat.lt_succ_self _
      have both := first.trans (ih h)
      rw [Nat.add_comm 1] at both
      exact both

theorem insertSubgraph_takes (g : Graph) (spec : SubgraphSpec) :
    g.ids.Takes (g.insertSubgraph spec).1.addedNodes (g.insertSubgraph spec).1.addedEdges
      (g.insertSubgraph spec).2.ids spec.nodes.length spec.edges.length := by
  have nodes := addNodes_takes g spec.nodes
  have edges := addEdgeSpecs_takes (g.addNodes spec.nodes).2 (g.addNodes spec.nodes).1 spec.edges
  have both := nodes.trans edges
  rw [List.append_nil, List.nil_append, Nat.zero_add, Nat.add_zero] at both
  exact both

end Graph

/-- Whether the descriptions of a rule have at most so many nodes and edges. -/
def RuleKind.GrowsBy (n e : Nat) : RuleKind → Prop
  | .graph _ build => ∀ m spec, build m = some spec → spec.nodes.length ≤ n ∧ spec.edges.length ≤ e
  | .node .. | .edge .. | .unrecognized _ => True

def Grammar.GrowsBy (n e : Nat) (grammar : Grammar) : Prop :=
  ∀ tier ∈ grammar.tiers, ∀ rule ∈ tier.rules, rule.kind.GrowsBy n e

variable {n e : Nat}

namespace Graph

theorem replaceEdge_takes (g : Graph) {build : MatchedEdge → Option SubgraphSpec}
    (grows : ∀ m spec, build m = some spec → spec.nodes.length ≤ n ∧ spec.edges.length ≤ e)
    (id : EdgeId) (src dest : NodeId) :
    g.ids.Takes (g.replaceEdge build id src dest).1.addedNodes
      (g.replaceEdge build id src dest).1.addedEdges (g.replaceEdge build id src dest).2.ids n e := by
  rcases g.replaceEdge_cases build id src dest with
    rests | ⟨m, _, ⟨_, erases⟩ | ⟨spec, built, inserts⟩⟩
  · rw [rests]
    exact .none g.ids n e
  · rw [erases]
    exact .none g.ids n e
  · obtain ⟨nodes, edges⟩ := grows m spec built
    rw [inserts]
    exact (insertSubgraph_takes (g.eraseEdge id) spec).mono nodes edges

theorem applyAt_takes (g : Graph) {kind : RuleKind} (grows : kind.GrowsBy n e) (site : Site) :
    g.ids.Takes (g.applyAt kind site).1.addedNodes (g.applyAt kind site).1.addedEdges
      (g.applyAt kind site).2.ids n e := by
  rcases g.applyAt_cases kind site with
    rests | ⟨_, _, id, _, writes⟩ | ⟨_, _, id, _, writes⟩ | ⟨_, _, id, src, dest, rfl, replaces⟩
  · rw [rests]
    exact .none g.ids n e
  · rw [writes]
    exact .none g.ids n e
  · rw [writes]
    exact .none g.ids n e
  · rw [replaces]
    exact replaceEdge_takes g grows id src dest

end Graph

namespace RunState

theorem step_takes {grammar : Grammar} (grows : grammar.GrowsBy n e) (s : RunState) :
    s.graph.ids.Takes (s.step grammar).1.change.addedNodes (s.step grammar).1.change.addedEdges
      (s.step grammar).2.graph.ids n e := by
  rcases step_cases grammar s with ⟨outcome, same⟩ | ⟨set, c, found, listed, outcome, graph⟩
  · rw [outcome, same]
    exact .none _ n e
  · obtain ⟨tier, inGrammar, inTier, _⟩ := Graph.mem_candidates? found listed
    rw [outcome, graph]
    exact Graph.applyAt_takes s.graph (grows tier inGrammar c.rule inTier) c.site

theorem follow_takes {grammars : List Grammar} (grows : ∀ grammar ∈ grammars, grammar.GrowsBy n e)
    (s : RunState) :
    s.graph.ids.Takes (Applied.nodes ((follow grammars s).1.map StepOutcome.change))
      (Applied.edges ((follow grammars s).1.map StepOutcome.change)) (follow grammars s).2.graph.ids
      (grammars.length * n) (grammars.length * e) := by
  induction grammars generalizing s with
  | nil => exact .none s.graph.ids _ _
  | cons grammar rest ih =>
    have first := step_takes (grows grammar List.mem_cons_self) s
    have tail := ih (fun other member => grows other (List.mem_cons_of_mem _ member))
      (s.step grammar).2
    have both := first.trans tail
    rw [List.length_cons, Nat.succ_mul, Nat.succ_mul, Nat.add_comm _ n, Nat.add_comm _ e]
    exact both

theorem run_takes {grammar : Grammar} (grows : grammar.GrowsBy n e) (budget : Nat) (s : RunState) :
    s.graph.ids.Takes (Applied.nodes (changes grammar budget s))
      (Applied.edges (changes grammar budget s)) (run grammar budget s).2.graph.ids
      ((run grammar budget s).1.steps * n) ((run grammar budget s).1.steps * e) := by
  rw [run, runAfter_steps, Nat.zero_add]
  refine runAfter_induction grammar (I := fun changes s t => s.graph.ids.Takes (Applied.nodes changes)
    (Applied.edges changes) t.graph.ids (changes.length * n) (changes.length * e)) ?_ ?_ ?_ 0 budget s
  · intro s
    exact .none s.graph.ids _ _
  · intro s stopped
    rcases step_cases grammar s with ⟨_, same⟩ | ⟨_, _, _, _, other, _⟩
    · rw [same]
      exact .none s.graph.ids _ _
    · rw [other] at stopped
      cases stopped
  · intro s changes t rest
    have both := (step_takes grows s).trans rest
    rw [List.length_cons, Nat.succ_mul, Nat.succ_mul, Nat.add_comm _ n, Nat.add_comm _ e]
    exact both

theorem length_changes_le (grammar : Grammar) (budget : Nat) (s : RunState) :
    (changes grammar budget s).length ≤ budget := by
  induction budget generalizing s with
  | zero => exact Nat.le_refl 0
  | succ budget ih =>
    unfold changes
    split
    · exact Nat.zero_le _
    · next next _ => exact Nat.succ_le_succ (ih next)

theorem run_sparesLast {grammar : Grammar} (grows : grammar.GrowsBy n e) {budget : Nat} {s : RunState}
    (node : s.graph.ids.nextNode.toNat + budget * n < UInt64.size)
    (edge : s.graph.ids.nextEdge.toNat + budget * e < UInt64.size) :
    Graph.SparesLast (Applied.nodes (changes grammar budget s))
      (Applied.edges (changes grammar budget s)) := by
  have few := length_changes_le grammar budget s
  have takes := run_takes grows budget s
  rw [run, runAfter_steps, Nat.zero_add] at takes
  have nodes := Nat.mul_le_mul_right n few
  have edges := Nat.mul_le_mul_right e few
  exact takes.sparesLast (by omega) (by omega)

theorem follow_spareLast {grammars : List Grammar} (grows : ∀ grammar ∈ grammars, grammar.GrowsBy n e)
    {s : RunState} (node : s.graph.ids.nextNode.toNat + grammars.length * n < UInt64.size)
    (edge : s.graph.ids.nextEdge.toNat + grammars.length * e < UInt64.size) :
    StepOutcome.SpareLast (follow grammars s).1 :=
  (follow_takes grows s).sparesLast node edge

end RunState

end GraphGrammar
