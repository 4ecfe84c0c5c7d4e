import GraphGrammar.Application
import GraphGrammar.Random.Weighted

/-!
Runs of a grammar. A step finds the candidates of the graph as it is, draws one of them by weight and
applies it. A run takes steps until no rule matches or its budget is spent.
-/

namespace GraphGrammar

structure RunState where
  graph : Graph
  generator : Generator
deriving Inhabited

inductive StepOutcome where
  | applied (rule : String) (tier candidates : Nat) (change : Applied)
  /-- No rule matches. -/
  | exhausted

inductive Halt where
  | exhausted
  | budget
deriving DecidableEq

structure RunSummary where
  steps : Nat
  halt : Halt
deriving DecidableEq

namespace RunState

def draw (candidates : List Candidate) (generator : Generator) : Option Candidate × Generator :=
  let (i, generator) := generator.weighted (candidates.map fun c => c.rule.weight)
  (i.bind fun i => candidates[i]?, generator)

def step (grammar : Grammar) (s : RunState) : StepOutcome × RunState :=
  match s.graph.candidates? grammar with
  | none => (.exhausted, s)
  | some set =>
    match draw set.candidates s.generator with
    | (none, generator) => (.exhausted, { s with generator })
    | (some c, generator) =>
      let (change, graph) := s.graph.apply c
      (.applied c.rule.name set.tier set.candidates.length change, ⟨graph, generator⟩)

/-- Steps within a budget, behind the given number of steps. -/
def runAfter (grammar : Grammar) (taken : Nat) : Nat → RunState → RunSummary × RunState
  | 0, s => (⟨taken, .budget⟩, s)
  | budget + 1, s =>
    match s.step grammar with
    | (.exhausted, s) => (⟨taken, .exhausted⟩, s)
    | (.applied .., s) => runAfter grammar (taken + 1) budget s

def run (grammar : Grammar) (budget : Nat) (s : RunState) : RunSummary × RunState :=
  runAfter grammar 0 budget s

end RunState

/-- A run that can be continued, with the number of steps taken so far. -/
structure Engine where
  grammar : Grammar
  state : RunState
  stepsTaken : Nat := 0
deriving Inhabited

namespace Engine

def step (e : Engine) : StepOutcome × Engine :=
  match e.state.step e.grammar with
  | (.exhausted, state) => (.exhausted, { e with state })
  | (outcome, state) => (outcome, { e with state, stepsTaken := e.stepsTaken + 1 })

def run (e : Engine) (budget : Nat) : RunSummary × Engine :=
  let (summary, state) := e.state.run e.grammar budget
  (summary, { e with state, stepsTaken := e.stepsTaken + summary.steps })

end Engine

end GraphGrammar
