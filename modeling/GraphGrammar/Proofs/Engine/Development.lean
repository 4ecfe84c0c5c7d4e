import GraphGrammar.Proofs.Engine.Step
import GraphGrammar.Proofs.Graph.Application

/-!
Steps and runs as developments of their graph. The ids that enter are those that the changes list.
-/

namespace GraphGrammar

variable {P : Label → Prop}

def Grammar.Keeps (P : Label → Prop) (grammar : Grammar) : Prop :=
  ∀ tier ∈ grammar.tiers, ∀ rule ∈ tier.rules, rule.kind.Keeps P

theorem Grammar.keeps_true (grammar : Grammar) : grammar.Keeps fun _ => True :=
  fun _ _ rule _ => rule.kind.keeps_true

def Applied.nodes (changes : List Applied) : List NodeId := changes.flatMap Applied.addedNodes

def Applied.edges (changes : List Applied) : List EdgeId := changes.flatMap Applied.addedEdges

namespace RunState

open GraphGrammar.Graph (Development)

theorem step_development (texts : IgnoresTexts P) {grammar : Grammar} (keeps : grammar.Keeps P)
    {s : RunState} (labels : s.graph.Allowed P) :
    Development P s.graph (s.step grammar).1.change.addedNodes (s.step grammar).1.change.addedEdges
      (s.step grammar).2.graph := by
  rcases step_cases grammar s with ⟨outcome, same⟩ | ⟨set, c, found, listed, outcome, graph⟩
  · rw [outcome, same]
    exact .refl s.graph
  · obtain ⟨tier, inGrammar, inTier, _⟩ := Graph.mem_candidates? found listed
    rw [outcome, graph]
    exact Graph.applyAt_development texts labels (keeps tier inGrammar c.rule inTier) c.site

theorem runAfter_development (texts : IgnoresTexts P) {grammar : Grammar} (keeps : grammar.Keeps P)
    (taken budget : Nat) {s : RunState} (labels : s.graph.Allowed P) :
    Development P s.graph (Applied.nodes (changes grammar budget s))
      (Applied.edges (changes grammar budget s)) (runAfter grammar taken budget s).2.graph := by
  revert labels
  refine runAfter_induction grammar (I := fun changes s t => s.graph.Allowed P →
    Development P s.graph (Applied.nodes changes) (Applied.edges changes) t.graph) ?_ ?_ ?_ taken
      budget s
  · intro s _
    exact .refl s.graph
  · intro s outcome labels
    have once := step_development texts keeps labels
    rw [outcome] at once
    exact once
  · intro s changes t ih labels
    have once := step_development texts keeps labels
    exact once.trans (ih (once.allowed labels))

theorem run_development (texts : IgnoresTexts P) {grammar : Grammar} (keeps : grammar.Keeps P)
    (budget : Nat) {s : RunState} (labels : s.graph.Allowed P) :
    Development P s.graph (Applied.nodes (changes grammar budget s))
      (Applied.edges (changes grammar budget s)) (run grammar budget s).2.graph :=
  runAfter_development texts keeps 0 budget labels

end RunState

end GraphGrammar
