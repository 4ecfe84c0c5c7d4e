import GraphGrammar.Proofs.Engine.Draws
import Mathlib.Algebra.GroupWithZero.Nat

/-!
Runs one after the other. A run is a row of steps that ends where a step stops or where the budget is spent,
so two runs in a row are one run with both budgets. A step stops only where no rule matches anywhere, and
changes nothing there, so that all later steps and runs stop as well. An engine counts the steps that applied
a rule, in whatever order it is told to step and to run.
-/

namespace GraphGrammar

def RuleKind.MatchesAt (g : Graph) (kind : RuleKind) (site : Site) : Prop :=
  match kind with
  | .node condition _ => ∃ id node, g.node? id = some node ∧ condition.accepts node g = true ∧
    site = .node node.id
  | .edge pattern _ | .graph pattern _ => ∃ id edge src dest, g.edge? id = some edge ∧
    g.node? edge.src = some src ∧ g.node? edge.dest = some dest ∧
    pattern.accepts src dest edge g = true ∧ site = .edge edge.id edge.src edge.dest
  | .unrecognized _ => False

theorem Graph.mem_sites_iff {g : Graph} {kind : RuleKind} {site : Site} :
    site ∈ g.sites kind ↔ kind.MatchesAt g site := by
  cases kind with
  | node => exact mem_sites_node
  | edge => exact mem_matchingEdges
  | graph => exact mem_matchingEdges
  | unrecognized => exact ⟨fun listed => (nomatch listed), False.elim⟩

theorem Graph.candidates?_eq_none_iff {g : Graph} {grammar : Grammar} :
    g.candidates? grammar = none ↔
      ∀ tier ∈ grammar.tiers, ∀ rule ∈ tier.rules, ∀ site, ¬rule.kind.MatchesAt g site := by
  constructor
  · intro exhausted tier inGrammar rule inTier site
    rw [← mem_sites_iff, sites_eq_nil exhausted inGrammar inTier]
    exact List.not_mem_nil
  · intro nowhere
    refine candidatesFrom_eq_none_iff.mpr fun tier inGrammar => ?_
    refine List.eq_nil_iff_forall_not_mem.mpr fun c listed => ?_
    obtain ⟨inTier, site⟩ := mem_tierCandidates.mp listed
    exact nowhere tier inGrammar c.rule inTier c.site (mem_sites_iff.mp site)

namespace RunState

variable {grammar : Grammar} {s t : RunState} {rule : String} {tier candidates : Nat} {change : Applied}

theorem runAfter_eq (grammar : Grammar) (taken budget : Nat) (s : RunState) :
    runAfter grammar taken budget s =
      (⟨taken + (run grammar budget s).1.steps, (run grammar budget s).1.halt⟩,
        (run grammar budget s).2) := by
  induction budget generalizing taken s with
  | zero => rfl
  | succ budget ih =>
    unfold run runAfter
    cases s.step grammar with
    | mk outcome next =>
      cases outcome with
      | exhausted => rfl
      | applied =>
        simp only [ih (taken + 1), ih (0 + 1)]
        rw [Nat.add_assoc, Nat.zero_add]

theorem run_succ_of_exhausted (stopped : (s.step grammar).1 = .exhausted) (budget : Nat) :
    run grammar (budget + 1) s = (⟨0, .exhausted⟩, s) := by
  rw [run, runAfter, step_of_exhausted stopped]

theorem run_succ_of_applied (applied : s.step grammar = (.applied rule tier candidates change, t))
    (budget : Nat) : run grammar (budget + 1) s =
      (⟨1 + (run grammar budget t).1.steps, (run grammar budget t).1.halt⟩, (run grammar budget t).2) := by
  rw [run, runAfter, applied]
  exact runAfter_eq grammar 1 budget t

theorem run_of_exhausted (stopped : (s.step grammar).1 = .exhausted) (budget : Nat) :
    (run grammar budget s).1.steps = 0 ∧ (run grammar budget s).2 = s := by
  cases budget with
  | zero => exact ⟨rfl, rfl⟩
  | succ budget => simp [run_succ_of_exhausted stopped]

theorem step_exhausted_or_applied (grammar : Grammar) (s : RunState) :
    (s.step grammar).1 = .exhausted ∨
      ∃ rule tier candidates change t, s.step grammar = (.applied rule tier candidates change, t) := by
  cases result : s.step grammar with
  | mk outcome t =>
    cases outcome with
    | exhausted => exact .inl rfl
    | applied rule tier candidates change => exact .inr ⟨rule, tier, candidates, change, t, rfl⟩

theorem run_add (grammar : Grammar) (a b : Nat) (s : RunState) :
    let first := run grammar a s
    let second := run grammar b first.2
    run grammar (a + b) s = (⟨first.1.steps + second.1.steps,
      if first.1.halt = .exhausted then .exhausted else second.1.halt⟩, second.2) := by
  induction a generalizing s with
  | zero => simp [run, runAfter]
  | succ a ih =>
    rw [Nat.succ_add]
    rcases step_exhausted_or_applied grammar s with stopped | ⟨rule, tier, candidates, change, t, applied⟩
    · simp [run_succ_of_exhausted stopped, run_of_exhausted stopped]
    · simp only [run_succ_of_applied applied]
      rw [ih t]
      simp [Nat.add_assoc]

theorem step_of_halt_exhausted {budget : Nat} (halted : (run grammar budget s).1.halt = .exhausted) :
    ((run grammar budget s).2.step grammar).1 = .exhausted := by
  induction budget generalizing s with
  | zero => cases halted
  | succ budget ih =>
    rcases step_exhausted_or_applied grammar s with stopped | ⟨rule, tier, candidates, change, t, applied⟩
    · rw [run_succ_of_exhausted stopped]
      exact stopped
    · rw [run_succ_of_applied applied] at halted ⊢
      exact ih halted

theorem halt_eq_budget_iff (grammar : Grammar) (budget : Nat) (s : RunState) :
    (run grammar budget s).1.halt = .budget ↔ (run grammar budget s).1.steps = budget := by
  induction budget generalizing s with
  | zero => simp [run, runAfter]
  | succ budget ih =>
    rcases step_exhausted_or_applied grammar s with stopped | ⟨rule, tier, candidates, change, t, applied⟩
    · simp [run_succ_of_exhausted stopped]
    · simp only [run_succ_of_applied applied, ih]
      omega

theorem steps_le (grammar : Grammar) (budget : Nat) (s : RunState) :
    (run grammar budget s).1.steps ≤ budget := by
  induction budget generalizing s with
  | zero => exact Nat.le_refl 0
  | succ budget ih =>
    rcases step_exhausted_or_applied grammar s with stopped | ⟨rule, tier, candidates, change, t, applied⟩
    · rw [run_succ_of_exhausted stopped]
      exact Nat.zero_le _
    · rw [run_succ_of_applied applied, Nat.add_comm 1]
      exact Nat.succ_le_succ (ih t)

/-- The outcomes of at most so many steps, of which no more are taken after one has stopped. -/
def stepUpTo (grammar : Grammar) : Nat → RunState → List StepOutcome × RunState
  | 0, s => ([], s)
  | budget + 1, s =>
    match s.step grammar with
    | (.exhausted, t) => ([.exhausted], t)
    | (outcome, t) =>
      let (outcomes, last) := stepUpTo grammar budget t
      (outcome :: outcomes, last)

theorem stepUpTo_succ_of_exhausted (stopped : (s.step grammar).1 = .exhausted) (budget : Nat) :
    stepUpTo grammar (budget + 1) s = ([.exhausted], s) := by
  rw [stepUpTo, step_of_exhausted stopped]

theorem stepUpTo_succ_of_applied (applied : s.step grammar = (.applied rule tier candidates change, t))
    (budget : Nat) : stepUpTo grammar (budget + 1) s =
      (.applied rule tier candidates change :: (stepUpTo grammar budget t).1,
        (stepUpTo grammar budget t).2) := by
  rw [stepUpTo, applied]

end RunState

def StepOutcome.applications (outcomes : List StepOutcome) : Nat := outcomes.countP (· ≠ .exhausted)

namespace RunState

open StepOutcome (applications)

/-- A run is the row of steps up to the first one that stops. -/
theorem run_eq_stepUpTo (grammar : Grammar) (budget : Nat) (s : RunState) :
    let (outcomes, last) := stepUpTo grammar budget s
    run grammar budget s = (⟨applications outcomes,
      if .exhausted ∈ outcomes then .exhausted else .budget⟩, last) := by
  induction budget generalizing s with
  | zero => rfl
  | succ budget ih =>
    rcases step_exhausted_or_applied grammar s with stopped | ⟨rule, tier, candidates, change, t, applied⟩
    · simp [run_succ_of_exhausted stopped, stepUpTo_succ_of_exhausted stopped, applications]
    · simp [run_succ_of_applied applied, stepUpTo_succ_of_applied applied, ih, applications, Nat.add_comm]

theorem follow_applications (grammar : Grammar) (budget : Nat) (s : RunState) :
    let applied := List.replicate (applications (stepUpTo grammar budget s).1) grammar
    .exhausted ∉ (follow applied s).1 ∧ (follow applied s).2 = (stepUpTo grammar budget s).2 := by
  induction budget generalizing s with
  | zero => exact ⟨List.not_mem_nil, rfl⟩
  | succ budget ih =>
    rcases step_exhausted_or_applied grammar s with stopped | ⟨rule, tier, candidates, change, t, applied⟩
    · rw [stepUpTo_succ_of_exhausted stopped]
      exact ⟨List.not_mem_nil, rfl⟩
    · obtain ⟨going, last⟩ := ih t
      have count : applications (.applied rule tier candidates change :: (stepUpTo grammar budget t).1) =
          applications (stepUpTo grammar budget t).1 + 1 := List.countP_cons_of_pos (by simp)
      rw [stepUpTo_succ_of_applied applied, count]
      intro steps
      have first : follow steps s = _ := follow_cons grammar _ s
      rw [first, applied]
      exact ⟨by simpa using going, last⟩

theorem follow_of_exhausted (stopped : (s.step grammar).1 = .exhausted) (steps : Nat) :
    follow (.replicate steps grammar) s = (.replicate steps .exhausted, s) := by
  induction steps with
  | zero => rfl
  | succ steps ih =>
    rw [List.replicate_succ, follow_cons, step_of_exhausted stopped, ih, List.replicate_succ]

end RunState

namespace Engine

open RunState (follow stepUpTo)
open StepOutcome (applications)

inductive Call where
  | step
  | run (budget : Nat)

def Call.budget : Call → Nat
  | .step => 1
  | .run budget => budget

/-- The outcomes of the steps that an engine takes when it is told to do something, and the engine then. -/
def call (e : Engine) : Call → List StepOutcome × Engine
  | .step => ([e.step.1], e.step.2)
  | .run budget => ((stepUpTo e.grammar budget e.state).1, (e.run budget).2)

def calls (e : Engine) : List Call → List StepOutcome × Engine
  | [] => ([], e)
  | c :: rest => ((e.call c).1 ++ ((e.call c).2.calls rest).1, ((e.call c).2.calls rest).2)

/-- One engine becomes another one by so many steps, each of which applies a rule and is counted. -/
structure Advances (e : Engine) (applied : Nat) (f : Engine) : Prop where
  grammar : f.grammar = e.grammar
  count : f.stepsTaken = e.stepsTaken + applied
  going : .exhausted ∉ (follow (.replicate applied e.grammar) e.state).1
  state : (follow (.replicate applied e.grammar) e.state).2 = f.state

variable {e f h : Engine} {n k : Nat}

theorem Advances.refl (e : Engine) : e.Advances 0 e := ⟨rfl, rfl, List.not_mem_nil, rfl⟩

theorem Advances.trans (first : e.Advances n f) (rest : f.Advances k h) : e.Advances (n + k) h := by
  obtain ⟨grammar, count, going, state⟩ := first
  obtain ⟨grammar', count', going', state'⟩ := rest
  rw [grammar, ← state] at going' state'
  refine ⟨grammar'.trans grammar, by omega, ?_, ?_⟩
  · rw [← List.replicate_append_replicate, RunState.follow_append, List.mem_append, not_or]
    exact ⟨going, going'⟩
  · rw [← List.replicate_append_replicate, RunState.follow_append]
    exact state'

theorem step_advances (e : Engine) : e.Advances (applications [e.step.1]) e.step.2 := by
  rcases RunState.step_exhausted_or_applied e.grammar e.state with
    stopped | ⟨rule, tier, candidates, change, t, applied⟩
  · have still : e.step = (.exhausted, e) := by
      rw [step, RunState.step_of_exhausted stopped]
    rw [still]
    exact .refl e
  · have taken : e.step = (.applied rule tier candidates change,
        { e with state := t, stepsTaken := e.stepsTaken + 1 }) := by
      rw [step, applied]
    rw [taken]
    have once : follow (.replicate 1 e.grammar) e.state =
        ([.applied rule tier candidates change], t) := by
      rw [List.replicate_one, RunState.follow_cons, applied, RunState.follow_nil]
    refine ⟨rfl, rfl, ?_, congrArg Prod.snd once⟩
    exact once ▸ by simp

theorem run_advances (e : Engine) (budget : Nat) :
    e.Advances (applications (stepUpTo e.grammar budget e.state).1) (e.run budget).2 := by
  have summary := RunState.run_eq_stepUpTo e.grammar budget e.state
  obtain ⟨going, state⟩ := RunState.follow_applications e.grammar budget e.state
  simp only [run, summary]
  exact ⟨rfl, rfl, going, state⟩

theorem calls_advances (e : Engine) (calls : List Call) :
    e.Advances (applications (e.calls calls).1) (e.calls calls).2 := by
  induction calls generalizing e with
  | nil => exact .refl e
  | cons c rest ih =>
    have first : e.Advances (applications (e.call c).1) (e.call c).2 := by
      cases c with
      | step => exact e.step_advances
      | run budget => exact e.run_advances budget
    have both := first.trans (ih (e.call c).2)
    rw [applications, applications, ← List.countP_append] at both
    exact both

theorem applications_call_le (e : Engine) (c : Call) : applications (e.call c).1 ≤ c.budget := by
  cases c with
  | step => exact List.countP_le_length
  | run budget =>
    have summary := RunState.run_eq_stepUpTo e.grammar budget e.state
    have bound := RunState.steps_le e.grammar budget e.state
    rwa [summary] at bound

theorem applications_calls_le (e : Engine) (calls : List Call) :
    applications (e.calls calls).1 ≤ (calls.map Call.budget).sum := by
  induction calls generalizing e with
  | nil => exact Nat.le_refl 0
  | cons c rest ih =>
    simp only [Engine.calls, applications, List.countP_append, List.map_cons, List.sum_cons]
    exact Nat.add_le_add (e.applications_call_le c) (ih (e.call c).2)

end Engine

namespace RunState

open StepOutcome (applications)

/-- Two runs in a row are one run with both budgets, and a run is a row of steps up to the first one that
stops. Its budget is spent exactly if it took so many steps. A step stops exactly where no rule of any tier
matches at any site; then it changes nothing, and all later steps and runs stop without a step. However an
engine is told to step and to run, it counts the steps that applied a rule. No count is above the budgets that
it was reached with, so counts fit into a word as long as these do. -/
theorem runs_compose (grammar : Grammar) (s : RunState) :
    (∀ a b, let first := run grammar a s
      let second := run grammar b first.2
      run grammar (a + b) s = (⟨first.1.steps + second.1.steps,
        if first.1.halt = .exhausted then .exhausted else second.1.halt⟩, second.2)) ∧
    (∀ n, let (outcomes, last) := stepUpTo grammar n s
      run grammar n s = (⟨applications outcomes,
        if .exhausted ∈ outcomes then .exhausted else .budget⟩, last)) ∧
    (∀ n, (run grammar n s).1.steps ≤ n ∧
      ((run grammar n s).1.halt = .budget ↔ (run grammar n s).1.steps = n)) ∧
    ((s.step grammar).1 = .exhausted ↔
      ∀ tier ∈ grammar.tiers, ∀ rule ∈ tier.rules, ∀ site, ¬rule.kind.MatchesAt s.graph site) ∧
    ((s.step grammar).1 = .exhausted → (s.step grammar).2 = s ∧ ∀ n,
      follow (.replicate n grammar) s = (.replicate n .exhausted, s) ∧
        (0 < n → run grammar n s = (⟨0, .exhausted⟩, s))) ∧
    (∀ n, (run grammar n s).1.halt = .exhausted → ((run grammar n s).2.step grammar).1 = .exhausted) ∧
    ∀ calls, let engine : Engine := ⟨grammar, s, 0⟩
      (engine.calls calls).2.stepsTaken = applications (engine.calls calls).1 ∧
        (engine.calls calls).2.stepsTaken ≤ (calls.map Engine.Call.budget).sum ∧
        engine.Advances (applications (engine.calls calls).1) (engine.calls calls).2 := by
  refine ⟨fun a b => run_add grammar a b s, fun n => run_eq_stepUpTo grammar n s,
    fun n => ⟨steps_le grammar n s, halt_eq_budget_iff grammar n s⟩, ?_,
    fun stopped => ⟨?_, fun n => ⟨?_, fun positive => ?_⟩⟩, fun n => step_of_halt_exhausted, fun calls => ?_⟩
  · rw [step_eq_exhausted_iff, Graph.candidates?_eq_none_iff]
  · rw [step_of_exhausted stopped]
  · exact follow_of_exhausted stopped n
  · cases n with
    | zero => cases positive
    | succ n => exact run_succ_of_exhausted stopped n
  · have advances := Engine.calls_advances ⟨grammar, s, 0⟩ calls
    have count := advances.count.trans (Nat.zero_add _)
    exact ⟨count, Nat.le_trans (Nat.le_of_eq count) (Engine.applications_calls_le _ calls), advances⟩

/-- Nothing is left to be done just when the first budget is spent. -/
theorem runs_compose_at_end_of_budget :
    let unseen : Condition Node := .predicate fun n _ => !n.label.contains "seen"
    let grammar : Grammar :=
      ⟨[⟨"only", [⟨"see", 1, .node unseen (.merge (.ofList [("seen", .bool true)]))⟩]⟩]⟩
    let s : RunState := ⟨(((∅ : Graph).addNode ∅).2.addNode ∅).2, .ofSeed 5⟩
    let t := (run grammar 2 s).2
    ((run grammar 2 s).1 = ⟨2, .budget⟩ ∧ (t.step grammar).1 = .exhausted) ∧
      run grammar 4 t = (⟨0, .exhausted⟩, t) ∧ run grammar (2 + 4) s = (⟨2, .exhausted⟩, t) := by
  intro unseen grammar s t
  have first : (run grammar 2 s).1 = ⟨2, .budget⟩ ∧ (t.step grammar).1 = .exhausted := by decide +kernel
  obtain ⟨_, _, _, _, absorbing, _⟩ := runs_compose grammar t
  have second := ((absorbing first.2).2 4).2 (by decide)
  refine ⟨first, second, ((runs_compose grammar s).1 2 4).trans ?_⟩
  change (_, (run grammar 4 t).2) = _
  rw [first.1, second]
  rfl

end RunState

end GraphGrammar
