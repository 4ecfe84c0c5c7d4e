import GraphGrammar.Proofs.Engine.Composition
import GraphGrammar.Proofs.Graph.History
import Mathlib.Data.List.Forall2

/-!
What the search for candidates finds. It stops at the first tier with a match and gives all matches of this
tier, rule by rule as they are declared, and those of one rule by ascending ids. Rules of an unknown kind
match nowhere, so leaving them out changes nothing.
-/

namespace GraphGrammar

def Site.index : Site → UInt64
  | .node id => id.index
  | .edge id _ _ => id.index

/-- Whether the candidates are all matches of a rule, each of them once, in ascending order of their ids. -/
structure Rule.FoundAt (g : Graph) (rule : Rule) (candidates : List Candidate) : Prop where
  all : ∀ c, c ∈ candidates ↔ c.rule = rule ∧ rule.kind.MatchesAt g c.site
  ascending : candidates.Pairwise fun c d => c.site.index < d.site.index

def Tier.MatchesIn (g : Graph) (tier : Tier) : Prop :=
  ∃ rule ∈ tier.rules, ∃ site, rule.kind.MatchesAt g site

/-- Whether the candidates are all matches of the first tier that has any, in the order of its rules. -/
structure CandidateSet.Cascades (g : Graph) (grammar : Grammar) (set : CandidateSet) : Prop where
  skipped : ∀ n < set.tier, ∀ tier, grammar.tiers[n]? = some tier → ¬tier.MatchesIn g
  found : ∃ tier, grammar.tiers[set.tier]? = some tier ∧ tier.MatchesIn g ∧
    ∃ blocks, tier.rules.Forall₂ (Rule.FoundAt g) blocks ∧ set.candidates = blocks.flatten

namespace Graph

variable {g : Graph}

theorem sites_ascending (g : Graph) (kind : RuleKind) :
    (g.sites kind).Pairwise fun s t => s.index < t.index := by
  have edges (pattern : EdgePattern) :
      (g.matchingEdges pattern).Pairwise fun s t => s.index < t.index :=
    List.pairwise_map.mpr ((List.pairwise_map.mp g.ascending_edges).filter _)
  cases kind with
  | node condition update => exact List.pairwise_map.mpr ((List.pairwise_map.mp g.ascending_nodes).filter _)
  | edge pattern update => exact edges pattern
  | graph pattern build => exact edges pattern
  | unrecognized name => exact .nil

theorem foundAt (g : Graph) (rule : Rule) :
    rule.FoundAt g ((g.sites rule.kind).map fun site => ⟨rule, site⟩) where
  all c := by
    rw [List.mem_map]
    constructor
    · rintro ⟨site, listed, rfl⟩
      exact ⟨rfl, mem_sites_iff.mp listed⟩
    · rintro ⟨rfl, matched⟩
      exact ⟨c.site, mem_sites_iff.mpr matched, rfl⟩
  ascending := List.pairwise_map.mpr (g.sites_ascending rule.kind)

theorem tierCandidates_eq_nil_iff {tier : Tier} : g.tierCandidates tier = [] ↔ ¬tier.MatchesIn g := by
  constructor
  · rintro nothing ⟨rule, inTier, site, matched⟩
    have listed : (⟨rule, site⟩ : Candidate) ∈ g.tierCandidates tier :=
      mem_tierCandidates.mpr ⟨inTier, mem_sites_iff.mpr matched⟩
    rw [nothing] at listed
    cases listed
  · intro nowhere
    refine List.eq_nil_iff_forall_not_mem.mpr fun c listed => ?_
    obtain ⟨inTier, site⟩ := mem_tierCandidates.mp listed
    exact nowhere ⟨c.rule, inTier, c.site, mem_sites_iff.mp site⟩

theorem candidates?_eq_some {grammar : Grammar} {set : CandidateSet}
    (found : g.candidates? grammar = some set) :
    (∀ n < set.tier, ∀ tier, grammar.tiers[n]? = some tier → g.tierCandidates tier = []) ∧
      ∃ tier, grammar.tiers[set.tier]? = some tier ∧ set.candidates = g.tierCandidates tier ∧
        g.tierCandidates tier ≠ [] := by
  obtain ⟨earlier, tier, later, tiers, count, skipped, same, something⟩ := candidatesFrom_eq_some found
  rw [Nat.zero_add] at count
  rw [tiers, count]
  refine ⟨fun n below t there => skipped t ?_, tier, by simp, same, same ▸ something⟩
  rw [List.getElem?_append_left below] at there
  exact List.mem_of_getElem? there

theorem cascades_of_candidates? {grammar : Grammar} {set : CandidateSet}
    (found : g.candidates? grammar = some set) : set.Cascades g grammar := by
  obtain ⟨skipped, tier, there, same, something⟩ := candidates?_eq_some found
  refine ⟨fun n below t here => tierCandidates_eq_nil_iff.mp (skipped n below t here), tier, there, ?_, ?_⟩
  · exact Classical.not_not.mp fun nowhere => something (tierCandidates_eq_nil_iff.mpr nowhere)
  · refine ⟨tier.rules.map fun rule => (g.sites rule.kind).map fun site => ⟨rule, site⟩, ?_, ?_⟩
    · exact List.forall₂_map_right_iff.mpr (List.forall₂_same.mpr fun rule _ => g.foundAt rule)
    · rw [same, tierCandidates, List.flatMap_def]

end Graph

/-- Some of the rules that are of an unknown kind are left out. -/
inductive ShedsUnknown : List Rule → List Rule → Prop where
  | nil : ShedsUnknown [] []
  | keep (rule : Rule) {rules rest : List Rule} (later : ShedsUnknown rules rest) :
    ShedsUnknown (rule :: rules) (rule :: rest)
  | drop {rule : Rule} {name : String} (unknown : rule.kind = .unrecognized name)
    {rules rest : List Rule} (later : ShedsUnknown rules rest) : ShedsUnknown (rule :: rules) rest

def Grammar.Sheds (grammar other : Grammar) : Prop :=
  grammar.tiers.Forall₂ (fun tier rest => ShedsUnknown tier.rules rest.rules) other.tiers

theorem ShedsUnknown.tierCandidates {tier rest : Tier} (sheds : ShedsUnknown tier.rules rest.rules)
    (g : Graph) : g.tierCandidates rest = g.tierCandidates tier := by
  unfold Graph.tierCandidates
  generalize tier.rules = rules at sheds ⊢
  generalize rest.rules = kept at sheds ⊢
  induction sheds with
  | nil => rfl
  | keep rule _ ih => rw [List.flatMap_cons, List.flatMap_cons, ih]
  | drop unknown _ ih =>
    rw [List.flatMap_cons, unknown, ih]
    rfl

namespace Grammar

variable {grammar other : Grammar}

theorem Sheds.candidates? (sheds : grammar.Sheds other) (g : Graph) :
    g.candidates? other = g.candidates? grammar := by
  have all {tiers rest : List Tier}
      (sheds : tiers.Forall₂ (fun tier rest => ShedsUnknown tier.rules rest.rules) rest) (number : Nat) :
      g.candidatesFrom number rest = g.candidatesFrom number tiers := by
    induction sheds generalizing number with
    | nil => rfl
    | cons first _ ih => rw [Graph.candidatesFrom, Graph.candidatesFrom, first.tierCandidates, ih]
  exact all sheds 0

theorem Sheds.step (sheds : grammar.Sheds other) (s : RunState) : s.step other = s.step grammar := by
  rw [RunState.step, RunState.step, sheds.candidates?]

theorem Sheds.runAfter (sheds : grammar.Sheds other) (taken budget : Nat) (s : RunState) :
    s.runAfter other taken budget = s.runAfter grammar taken budget := by
  induction budget generalizing taken s with
  | zero => rfl
  | succ budget ih => simp only [RunState.runAfter, sheds.step, ih]

end Grammar

namespace Graph

/-- The search finds nothing exactly where no rule of any tier matches. Else it finds all matches of the first
tier with a match, each once, in the order of the rules and of the ids. Rules of an unknown kind may be left
out of any tiers: the candidates, all steps and all runs stay the same. -/
theorem search_cascades (grammar : Grammar) :
    (∀ g : Graph, g.candidates? grammar = none ↔ ∀ tier ∈ grammar.tiers, ¬tier.MatchesIn g) ∧
    (∀ (g : Graph) set, g.candidates? grammar = some set → set.Cascades g grammar) ∧
    ∀ other, grammar.Sheds other → (∀ g : Graph, g.candidates? other = g.candidates? grammar) ∧
      (∀ s : RunState, s.step other = s.step grammar) ∧
      ∀ (s : RunState) (budget : Nat), s.run other budget = s.run grammar budget := by
  refine ⟨fun g => ?_, fun g set => cascades_of_candidates?, fun other sheds => ⟨sheds.candidates?, sheds.step,
    fun s budget => sheds.runAfter 0 budget s⟩⟩
  refine candidatesFrom_eq_none_iff.trans (forall₂_congr fun tier _ => tierCandidates_eq_nil_iff)

/-- A first tier whose only rule is of an unknown kind, and a second one with a rule for halls and one for edges
out of halls around such a rule. Each of the two refuses one of two sites. -/
theorem search_cascades_past_unknown :
    let hall : Condition Node := .pattern (.ofList [("role", .str "hall")])
    let mystery : Rule := ⟨"mystery", 1, .unrecognized "hyperedge"⟩
    let tag : Rule := ⟨"tag", 1, .node hall .keep⟩
    let retype : Rule := ⟨"retype", 1, .edge { src := hall } .keep⟩
    let grammar : Grammar := ⟨[⟨"broken", [mystery]⟩, ⟨"ok", [tag, mystery, retype]⟩]⟩
    let other : Grammar := ⟨[⟨"broken", []⟩, ⟨"ok", [tag, retype]⟩]⟩
    let g := (Graph.history ∅ [.addNode ∅, .addNode (.ofList [("role", .str "hall")]),
      .addEdge ⟨0⟩ ⟨1⟩ ∅ none, .addEdge ⟨1⟩ ⟨0⟩ ∅ none]).graph
    let set : CandidateSet := ⟨1, [⟨tag, .node ⟨1⟩⟩, ⟨retype, .edge ⟨1⟩ ⟨1⟩ ⟨0⟩⟩]⟩
    (g.candidates? grammar = some set ∧ grammar.Sheds other) ∧
      set.Cascades g grammar ∧ g.candidates? other = some set ∧
      ∀ budget, RunState.run other budget ⟨g, .ofSeed 1⟩ = RunState.run grammar budget ⟨g, .ofSeed 1⟩ := by
  intro hall mystery tag retype grammar other g set
  have found : g.candidates? grammar = some set := rfl
  have sheds : grammar.Sheds other :=
    .cons (.drop rfl .nil) (.cons (.keep tag (.drop rfl (.keep retype .nil))) .nil)
  obtain ⟨_, exact', unknown⟩ := search_cascades grammar
  obtain ⟨same, _, runs⟩ := unknown other sheds
  exact ⟨⟨found, sheds⟩, exact' g set found, (same g).trans found, runs _⟩

end Graph

end GraphGrammar
