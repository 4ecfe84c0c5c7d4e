import GraphGrammar.Proofs.Engine.Development

/-!
Steps under a list of grammars, one grammar for each step. A run of a grammar follows some number of
copies of it. The list matters where a rule asks a source that answers differently from step to step.
-/

namespace GraphGrammar

/-- What entered by the steps with the given outcomes leaves out the ids without a successor. -/
def StepOutcome.SpareLast (outcomes : List StepOutcome) : Prop :=
  Graph.SparesLast (Applied.nodes (outcomes.map change)) (Applied.edges (outcomes.map change))

instance (outcomes : List StepOutcome) : Decidable (StepOutcome.SpareLast outcomes) :=
  inferInstanceAs (Decidable (Graph.SparesLast _ _))

namespace RunState

open GraphGrammar.Graph (SparesLast)

/-- One step under each grammar of a list. -/
def follow : List Grammar → RunState → List StepOutcome × RunState
  | [], s => ([], s)
  | grammar :: rest, s =>
    let (outcome, next) := s.step grammar
    let (outcomes, last) := follow rest next
    (outcome :: outcomes, last)

theorem follow_nil (s : RunState) : follow [] s = ([], s) := rfl

theorem follow_cons (grammar : Grammar) (rest : List Grammar) (s : RunState) :
    follow (grammar :: rest) s =
      ((s.step grammar).1 :: (follow rest (s.step grammar).2).1,
        (follow rest (s.step grammar).2).2) := rfl

theorem follow_append (first rest : List Grammar) (s : RunState) :
    follow (first ++ rest) s = ((follow first s).1 ++ (follow rest (follow first s).2).1,
      (follow rest (follow first s).2).2) := by
  induction first generalizing s with
  | nil => rfl
  | cons grammar first ih => simp only [List.cons_append, follow_cons, ih]

theorem spareLast_cons {outcome : StepOutcome} {outcomes : List StepOutcome} :
    StepOutcome.SpareLast (outcome :: outcomes) ↔
      SparesLast outcome.change.addedNodes outcome.change.addedEdges ∧
        StepOutcome.SpareLast outcomes := Graph.sparesLast_append

theorem follow_invariant {I : Graph → Prop} {grammars : List Grammar}
    (kept : ∀ grammar ∈ grammars, ∀ s : RunState,
      SparesLast (s.step grammar).1.change.addedNodes (s.step grammar).1.change.addedEdges →
        I s.graph → I (s.step grammar).2.graph)
    {s : RunState} (spared : StepOutcome.SpareLast (follow grammars s).1) (start : I s.graph) :
    I (follow grammars s).2.graph := by
  induction grammars generalizing s with
  | nil => exact start
  | cons grammar rest ih =>
    rw [follow_cons] at spared
    obtain ⟨now, later⟩ := spareLast_cons.mp spared
    have next := kept grammar List.mem_cons_self s now start
    exact ih (fun other member => kept other (List.mem_cons_of_mem _ member)) later next

def trace : List Grammar → RunState → List (StepOutcome × RunState)
  | [], _ => []
  | grammar :: rest, s => s.step grammar :: trace rest (s.step grammar).2

theorem runAfter_eq_follow (grammar : Grammar) (taken budget : Nat) (s : RunState) :
    ∃ steps, (runAfter grammar taken budget s).2 = (follow (.replicate steps grammar) s).2 ∧
      Applied.nodes (changes grammar budget s) =
        Applied.nodes ((follow (.replicate steps grammar) s).1.map StepOutcome.change) ∧
      Applied.edges (changes grammar budget s) =
        Applied.edges ((follow (.replicate steps grammar) s).1.map StepOutcome.change) := by
  refine runAfter_induction grammar (I := fun changes s t => ∃ steps,
    t = (follow (.replicate steps grammar) s).2 ∧
      Applied.nodes changes =
        Applied.nodes ((follow (.replicate steps grammar) s).1.map StepOutcome.change) ∧
      Applied.edges changes =
        Applied.edges ((follow (.replicate steps grammar) s).1.map StepOutcome.change))
    ?_ ?_ ?_ taken budget s
  · intro s
    exact ⟨0, rfl, rfl, rfl⟩
  · intro s outcome
    refine ⟨1, rfl, ?_, ?_⟩
    · rw [List.replicate_one, follow_cons, follow_nil, outcome]
      rfl
    · rw [List.replicate_one, follow_cons, follow_nil, outcome]
      rfl
  · rintro s changes t ⟨steps, rfl, nodes, edges⟩
    refine ⟨steps + 1, rfl, ?_, ?_⟩
    · rw [List.replicate_succ, follow_cons, List.map_cons]
      exact congrArg (_ ++ ·) nodes
    · rw [List.replicate_succ, follow_cons, List.map_cons]
      exact congrArg (_ ++ ·) edges

theorem run_eq_follow (grammar : Grammar) (budget : Nat) (s : RunState) :
    ∃ steps, (run grammar budget s).2 = (follow (.replicate steps grammar) s).2 ∧
      (SparesLast (Applied.nodes (changes grammar budget s)) (Applied.edges (changes grammar budget s)) ↔
        StepOutcome.SpareLast (follow (.replicate steps grammar) s).1) := by
  obtain ⟨steps, same, nodes, edges⟩ := runAfter_eq_follow grammar 0 budget s
  refine ⟨steps, same, ?_⟩
  rw [nodes, edges]
  exact Iff.rfl

end RunState

end GraphGrammar
