import GraphGrammar.Engine
import GraphGrammar.Proofs.Graph.Listing

/-!
What a step can do. Either it leaves the graph as it was, or it applies a candidate of the graph, whose
rule belongs to the grammar and whose site is one at which this rule matches.
-/

namespace GraphGrammar

namespace Graph

theorem mem_tierCandidates {g : Graph} {tier : Tier} {c : Candidate} :
    c ∈ g.tierCandidates tier ↔ c.rule ∈ tier.rules ∧ c.site ∈ g.sites c.rule.kind := by
  simp only [tierCandidates, List.mem_flatMap, List.mem_map]
  constructor
  · rintro ⟨rule, member, site, there, rfl⟩
    exact ⟨member, there⟩
  · rintro ⟨member, there⟩
    exact ⟨c.rule, member, c.site, there, rfl⟩

theorem candidatesFrom_eq_some {g : Graph} {number : Nat} {tiers : List Tier} {set : CandidateSet}
    (found : g.candidatesFrom number tiers = some set) :
    ∃ earlier tier later, tiers = earlier ++ tier :: later ∧ set.tier = number + earlier.length ∧
      (∀ t ∈ earlier, g.tierCandidates t = []) ∧ set.candidates = g.tierCandidates tier ∧
      set.candidates ≠ [] := by
  induction tiers generalizing number with
  | nil => cases found
  | cons tier rest ih =>
    unfold candidatesFrom at found
    split at found
    · next nothing =>
      obtain ⟨earlier, t, later, rfl, count, skipped, same⟩ := ih found
      refine ⟨tier :: earlier, t, later, rfl, ?_, List.forall_mem_cons.mpr ⟨nothing, skipped⟩, same⟩
      rw [count, List.length_cons]
      omega
    · next something =>
      cases found
      exact ⟨[], tier, rest, rfl, rfl, List.forall_mem_nil _, rfl, something⟩

theorem mem_candidates? {g : Graph} {grammar : Grammar} {set : CandidateSet}
    (found : g.candidates? grammar = some set) {c : Candidate} (listed : c ∈ set.candidates) :
    ∃ tier ∈ grammar.tiers, c.rule ∈ tier.rules ∧ c.site ∈ g.sites c.rule.kind := by
  obtain ⟨earlier, tier, later, tiers, _, _, same, _⟩ := candidatesFrom_eq_some found
  have member : tier ∈ grammar.tiers := by simp [tiers]
  rw [same] at listed
  exact ⟨tier, member, mem_tierCandidates.mp listed⟩

theorem mem_sites_node {g : Graph} {condition : Condition Node} {update : Update} {site : Site} :
    site ∈ g.sites (.node condition update) ↔
      ∃ id node, g.node? id = some node ∧ condition.accepts node g = true ∧ site = .node node.id := by
  simp only [sites, matchingNodes, List.mem_map, List.mem_filter, mem_nodes_iff]
  constructor
  · rintro ⟨node, ⟨⟨id, found⟩, accepted⟩, rfl⟩
    exact ⟨id, node, found, accepted, rfl⟩
  · rintro ⟨id, node, found, accepted, rfl⟩
    exact ⟨node, ⟨⟨id, found⟩, accepted⟩, rfl⟩

theorem mem_matchingEdges {g : Graph} {pattern : EdgePattern} {site : Site} :
    site ∈ g.matchingEdges pattern ↔
      ∃ id edge src dest, g.edge? id = some edge ∧ g.node? edge.src = some src ∧
        g.node? edge.dest = some dest ∧ pattern.accepts src dest edge g = true ∧
        site = .edge edge.id edge.src edge.dest := by
  simp only [matchingEdges, List.mem_map, List.mem_filter, mem_edges_iff]
  constructor
  · rintro ⟨edge, ⟨⟨id, found⟩, matched⟩, rfl⟩
    unfold matchesEdge at matched
    split at matched
    · next src dest hsrc hdest => exact ⟨id, edge, src, dest, found, hsrc, hdest, matched, rfl⟩
    · cases matched
  · rintro ⟨id, edge, src, dest, found, hsrc, hdest, accepted, rfl⟩
    refine ⟨edge, ⟨⟨id, found⟩, ?_⟩, rfl⟩
    rw [matchesEdge, hsrc, hdest]
    exact accepted

end Graph

deriving instance DecidableEq for StepOutcome

namespace StepOutcome

def change : StepOutcome → Applied
  | applied _ _ _ change => change
  | exhausted => {}

end StepOutcome

namespace RunState

theorem mem_of_draw {candidates : List Candidate} {generator next : Generator} {c : Candidate}
    (drawn : draw candidates generator = (some c, next)) : c ∈ candidates := by
  have first := congrArg Prod.fst drawn
  simp only [draw] at first
  obtain ⟨i, _, there⟩ := Option.bind_eq_some_iff.mp first
  exact List.mem_of_getElem? there

theorem step_of_candidates?_eq_none {grammar : Grammar} {s : RunState}
    (found : s.graph.candidates? grammar = none) : s.step grammar = (.exhausted, s) := by
  rw [step, found]

theorem step_of_draw_eq_none {grammar : Grammar} {s : RunState} {set : CandidateSet}
    {generator : Generator} (found : s.graph.candidates? grammar = some set)
    (drawn : draw set.candidates s.generator = (none, generator)) :
    s.step grammar = (.exhausted, { s with generator }) := by
  rw [step, found]
  simp only [drawn]

theorem step_of_draw_eq_some {grammar : Grammar} {s : RunState} {set : CandidateSet} {c : Candidate}
    {generator : Generator} (found : s.graph.candidates? grammar = some set)
    (drawn : draw set.candidates s.generator = (some c, generator)) :
    s.step grammar = (.applied c.rule.name set.tier set.candidates.length (s.graph.apply c).1,
      ⟨(s.graph.apply c).2, generator⟩) := by
  rw [step, found]
  simp only [drawn]

/-- A step leaves the graph alone, or applies a candidate and reports what that changed. -/
theorem step_cases (grammar : Grammar) (s : RunState) :
    ((s.step grammar).1 = .exhausted ∧ (s.step grammar).2.graph = s.graph) ∨
      ∃ set c, s.graph.candidates? grammar = some set ∧ c ∈ set.candidates ∧
        (s.step grammar).1 =
          .applied c.rule.name set.tier set.candidates.length (s.graph.apply c).1 ∧
        (s.step grammar).2.graph = (s.graph.apply c).2 := by
  cases found : s.graph.candidates? grammar with
  | none =>
    rw [step_of_candidates?_eq_none found]
    exact .inl ⟨rfl, rfl⟩
  | some set =>
    cases drawn : draw set.candidates s.generator with
    | mk c generator =>
      cases c with
      | none =>
        rw [step_of_draw_eq_none found drawn]
        exact .inl ⟨rfl, rfl⟩
      | some c =>
        rw [step_of_draw_eq_some found drawn]
        exact .inr ⟨set, c, rfl, mem_of_draw drawn, rfl, rfl⟩

def changes (grammar : Grammar) : Nat → RunState → List Applied
  | 0, _ => []
  | budget + 1, s =>
    match s.step grammar with
    | (.exhausted, _) => []
    | (.applied _ _ _ change, s) => change :: changes grammar budget s

theorem runAfter_steps (grammar : Grammar) (taken budget : Nat) (s : RunState) :
    (runAfter grammar taken budget s).1.steps = taken + (changes grammar budget s).length := by
  induction budget generalizing taken s with
  | zero => rfl
  | succ budget ih =>
    unfold changes runAfter
    cases s.step grammar with
    | mk outcome next =>
      cases outcome with
      | exhausted => rfl
      | applied rule tier candidates change =>
        simp only [ih, List.length_cons]
        omega

theorem runAfter_induction (grammar : Grammar) {I : List Applied → RunState → RunState → Prop}
    (refl : ∀ s, I [] s s) (exhausted : ∀ s, (s.step grammar).1 = .exhausted → I [] s (s.step grammar).2)
    (applied : ∀ s changes t, I changes (s.step grammar).2 t →
      I ((s.step grammar).1.change :: changes) s t)
    (taken budget : Nat) (s : RunState) :
    I (changes grammar budget s) s (runAfter grammar taken budget s).2 := by
  induction budget generalizing taken s with
  | zero => exact refl s
  | succ budget ih =>
    have stop := exhausted s
    have go := applied s
    unfold changes runAfter
    cases result : s.step grammar with
    | mk outcome next =>
      rw [result] at stop go
      cases outcome with
      | exhausted => exact stop rfl
      | applied rule tier candidates change => exact go _ _ (ih (taken + 1) next)

end RunState

end GraphGrammar
