import GraphGrammar.Proofs.Engine.Follow
import GraphGrammar.Proofs.Random.Selection

/-!
Sequences of draws. A step stops only where no rule matches, since a draw from candidates always gives one
of them. So a run of steps is a sequence of draws, and what holds for all sequences holds for every
generator.
-/

namespace GraphGrammar

namespace Graph

theorem candidatesFrom_eq_none_iff {g : Graph} {number : Nat} {tiers : List Tier} :
    g.candidatesFrom number tiers = none ↔ ∀ tier ∈ tiers, g.tierCandidates tier = [] := by
  induction tiers generalizing number with
  | nil => simp [candidatesFrom]
  | cons tier rest ih =>
    unfold candidatesFrom
    split
    · next nothing => simp [ih, nothing]
    · next something =>
      constructor
      · intro found
        cases found
      · intro nothing
        exact absurd (nothing tier List.mem_cons_self) something

theorem candidates_ne_nil {g : Graph} {grammar : Grammar} {set : CandidateSet}
    (found : g.candidates? grammar = some set) : set.candidates ≠ [] := by
  obtain ⟨_, _, _, _, _, _, _, nonempty⟩ := candidatesFrom_eq_some found
  exact nonempty

theorem sites_eq_nil {g : Graph} {grammar : Grammar} (exhausted : g.candidates? grammar = none)
    {tier : Tier} (inGrammar : tier ∈ grammar.tiers) {rule : Rule} (inTier : rule ∈ tier.rules) :
    g.sites rule.kind = [] := by
  have nothing := candidatesFrom_eq_none_iff.mp exhausted tier inGrammar
  have here := List.flatMap_eq_nil_iff.mp nothing rule inTier
  exact List.map_eq_nil_iff.mp here

end Graph

namespace RunState

theorem draw_isSome {candidates : List Candidate} (nonempty : candidates ≠ [])
    (generator : Generator) : ∃ c, (draw candidates generator).1 = some c := by
  have weights : candidates.map (fun c => c.rule.weight) ≠ [] := by simpa using nonempty
  obtain ⟨i, drawn, inside⟩ := generator.weighted_lt weights
  rw [List.length_map] at inside
  refine ⟨candidates[i], ?_⟩
  simp [draw, drawn, inside]

theorem step_eq_exhausted_iff {grammar : Grammar} {s : RunState} :
    (s.step grammar).1 = .exhausted ↔ s.graph.candidates? grammar = none := by
  constructor
  · intro stopped
    cases found : s.graph.candidates? grammar with
    | none => rfl
    | some set =>
      obtain ⟨c, chosen⟩ := draw_isSome (Graph.candidates_ne_nil found) s.generator
      have drawn : draw set.candidates s.generator = (some c, (draw set.candidates s.generator).2) :=
        Prod.ext chosen rfl
      rw [step_of_draw_eq_some found drawn] at stopped
      cases stopped
  · intro found
    rw [step_of_candidates?_eq_none found]

theorem step_of_exhausted {grammar : Grammar} {s : RunState} (stopped : (s.step grammar).1 = .exhausted) :
    s.step grammar = (.exhausted, s) :=
  step_of_candidates?_eq_none (step_eq_exhausted_iff.mp stopped)

theorem exists_going (grammars : List Grammar) (s : RunState) :
    ∃ going, going.Sublist grammars ∧ .exhausted ∉ (follow going s).1 ∧
      (follow going s).2 = (follow grammars s).2 ∧
      (StepOutcome.SpareLast (follow grammars s).1 ↔ StepOutcome.SpareLast (follow going s).1) := by
  induction grammars generalizing s with
  | nil => exact ⟨[], .slnil, List.not_mem_nil, rfl, Iff.rfl⟩
  | cons grammar rest ih =>
    obtain ⟨going, sublist, goes, same, spared⟩ := ih (s.step grammar).2
    by_cases stopped : (s.step grammar).1 = .exhausted
    · have still := step_of_exhausted stopped
      rw [still] at goes same spared
      refine ⟨going, sublist.cons grammar, goes, ?_, ?_⟩
      · rw [follow_cons, still]
        exact same
      · rw [follow_cons, still, spareLast_cons, spared]
        exact and_iff_right ⟨List.not_mem_nil, List.not_mem_nil⟩
    · refine ⟨grammar :: going, sublist.cons_cons grammar, ?_, ?_, ?_⟩
      · rw [follow_cons, List.mem_cons, not_or]
        exact ⟨Ne.symm stopped, goes⟩
      · rw [follow_cons, follow_cons]
        exact same
      · rw [follow_cons, follow_cons, spareLast_cons, spareLast_cons, spared]

end RunState

open RunState (follow runAfter run changes)

/-- Under one grammar after the other, any candidate of the graph as it is then is applied. -/
inductive Draws : List Grammar → Graph → Graph → Prop where
  | nil (g : Graph) : Draws [] g g
  | cons {grammar : Grammar} {rest : List Grammar} {g h : Graph} {set : CandidateSet} {c : Candidate}
    (found : g.candidates? grammar = some set) (drawn : c ∈ set.candidates)
    (later : Draws rest (g.apply c).2 h) : Draws (grammar :: rest) g h

theorem draws_of_follow {grammars : List Grammar} {s : RunState}
    (going : .exhausted ∉ (follow grammars s).1) :
    Draws grammars s.graph (follow grammars s).2.graph := by
  induction grammars generalizing s with
  | nil => exact .nil s.graph
  | cons grammar rest ih =>
    rw [RunState.follow_cons, List.mem_cons, not_or] at going
    rcases RunState.step_cases grammar s with ⟨stopped, _⟩ | ⟨set, c, found, drawn, _, graph⟩
    · exact absurd stopped.symm going.1
    · refine .cons found drawn ?_
      rw [← graph]
      exact ih going.2

theorem runAfter_draws (grammar : Grammar) (taken budget : Nat) (s : RunState) :
    ∃ steps, Draws (.replicate steps grammar) s.graph (runAfter grammar taken budget s).2.graph ∧
      (runAfter grammar taken budget s).1.steps = taken + steps ∧
      ((runAfter grammar taken budget s).1.halt = .budget ∧ steps = budget ∨
        (runAfter grammar taken budget s).1.halt = .exhausted ∧
          (runAfter grammar taken budget s).2.graph.candidates? grammar = none) := by
  -- A step that stops leaves the graph alone, so the run ends where nothing matched either.
  induction budget generalizing taken s with
  | zero => exact ⟨0, .nil s.graph, rfl, .inl ⟨rfl, rfl⟩⟩
  | succ budget ih =>
    have cases := RunState.step_cases grammar s
    have stops := @RunState.step_eq_exhausted_iff grammar s
    unfold runAfter
    cases result : s.step grammar with
    | mk outcome next =>
      rw [result] at cases stops
      cases outcome with
      | exhausted =>
        obtain ⟨_, same⟩ | ⟨_, _, _, _, other, _⟩ := cases
        · change next.graph = s.graph at same
          refine ⟨0, ?_, rfl, .inr ⟨rfl, ?_⟩⟩
          · exact same ▸ .nil next.graph
          · exact same ▸ stops.mp rfl
        · cases other
      | applied rule tier candidates change =>
        obtain ⟨other, _⟩ | ⟨set, c, found, drawn, _, graph⟩ := cases
        · cases other
        · change next.graph = _ at graph
          obtain ⟨steps, draws, count, halt⟩ := ih (taken + 1) next
          rw [graph] at draws
          refine ⟨steps + 1, .cons found drawn draws, ?_, ?_⟩
          · simp only [count]
            omega
          · simpa using halt

theorem run_draws (grammar : Grammar) (budget : Nat) (s : RunState) :
    Draws (.replicate (run grammar budget s).1.steps grammar) s.graph (run grammar budget s).2.graph ∧
      ((run grammar budget s).1.halt = .budget ∧ (run grammar budget s).1.steps = budget ∨
        (run grammar budget s).1.halt = .exhausted ∧
          (run grammar budget s).2.graph.candidates? grammar = none) := by
  obtain ⟨steps, draws, count, halt⟩ := runAfter_draws grammar 0 budget s
  rw [Nat.zero_add] at count
  rw [run, count]
  exact ⟨draws, halt⟩

theorem Draws.invariant {I : Graph → Prop} {grammars : List Grammar}
    (kept : ∀ grammar ∈ grammars, ∀ {g set c}, g.candidates? grammar = some set →
      c ∈ set.candidates → I g → I (g.apply c).2)
    {g h : Graph} (draws : Draws grammars g h) (start : I g) : I h := by
  induction draws with
  | nil => exact start
  | cons found drawn later ih =>
    exact ih (fun other member => kept other (List.mem_cons_of_mem _ member))
      (kept _ List.mem_cons_self found drawn start)

/-- Where each draw lowers an effort, there are no more draws than effort is spent. -/
theorem Draws.length_add_le {effort : Graph → Nat} {I : Graph → Prop} {grammars : List Grammar}
    (lowered : ∀ grammar ∈ grammars, ∀ {g set c}, g.candidates? grammar = some set →
      c ∈ set.candidates → I g → I (g.apply c).2 ∧ effort (g.apply c).2 < effort g)
    {g h : Graph} (draws : Draws grammars g h) (start : I g) :
    grammars.length + effort h ≤ effort g := by
  induction draws with
  | nil g => simp
  | cons found drawn later ih =>
    obtain ⟨kept, less⟩ := lowered _ List.mem_cons_self found drawn start
    have rest := ih (fun other member => lowered other (List.mem_cons_of_mem _ member)) kept
    rw [List.length_cons]
    omega

theorem ends_of_draws_le {α : Type} {family : α → Grammar} {g : Graph} {bound : Nat}
    (short : ∀ (items : List α) (h : Graph), Draws (items.map family) g h → items.length ≤ bound) :
    (∀ (items : List α) (generator : Generator), bound < items.length →
      .exhausted ∈ (follow (items.map family) ⟨g, generator⟩).1) ∧
    ∀ (item : α) (generator : Generator) (budget : Nat),
      (run (family item) budget ⟨g, generator⟩).1.steps ≤ bound ∧
        (bound < budget → (run (family item) budget ⟨g, generator⟩).1.halt = .exhausted) := by
  constructor
  · intro items generator long
    refine Classical.byContradiction fun going => ?_
    exact Nat.not_lt.mpr (short items _ (draws_of_follow going)) long
  · intro item generator budget
    obtain ⟨draws, halt⟩ := run_draws (family item) budget ⟨g, generator⟩
    rw [← List.map_replicate] at draws
    have steps := short _ _ draws
    rw [List.length_replicate] at steps
    refine ⟨steps, fun large => ?_⟩
    rcases halt with ⟨_, spent⟩ | ⟨exhausted, _⟩
    · omega
    · exact exhausted

/-- What each draw can keep is kept by draws without an end. -/
theorem exists_endless_draws {I : Graph → Prop} {grammars : Nat → Grammar}
    (goes : ∀ n g, I g → ∃ h, Draws [grammars n] g h ∧ I h) {g : Graph} (start : I g) :
    ∃ graphs : Nat → Graph, graphs 0 = g ∧ ∀ n, Draws [grammars n] (graphs n) (graphs (n + 1)) := by
  have next (n : Nat) (s : { g // I g }) : ∃ t : { g // I g }, Draws [grammars n] s.1 t.1 := by
    obtain ⟨h, draws, kept⟩ := goes n s.1 s.2
    exact ⟨⟨h, kept⟩, draws⟩
  let states : Nat → { g // I g } :=
    Nat.rec ⟨g, start⟩ fun n s => Classical.choose (next n s)
  exact ⟨fun n => (states n).1, rfl, fun n => Classical.choose_spec (next n (states n))⟩

end GraphGrammar
