import GraphGrammar.Proofs.Engine.Follow
import GraphGrammar.Proofs.Graph.Erasure
import Mathlib.Data.List.Forall2

/-!
Two grammars of which the second one does without a key what the first one does with it. The steps of the
first one, seen without the key, are the steps of the second one: the outcomes are the same, the generator
is the same, and the graph is the same but for the key.
-/

namespace GraphGrammar

variable {key : String}

/-- Whether the second condition says without the key what the first one says with it. -/
def Condition.StripsTo (key : String) (condition condition' : Condition Node) : Prop :=
  ∀ (node : Node) (g : Graph),
    condition'.accepts (node.strip key) (g.strip key) = condition.accepts node g

def EdgePattern.StripsTo (key : String) (pattern pattern' : EdgePattern) : Prop :=
  ∀ (m : MatchedEdge) (g : Graph),
    pattern'.accepts (m.src.strip key) (m.dest.strip key) (m.edge.strip key) (g.strip key) =
      pattern.accepts m.src m.dest m.edge g

def Update.StripsTo (key : String) (update update' : Update) : Prop :=
  ∀ label : Label, update'.run (label.erase key) = (update.run label).erase key

def RuleKind.StripsTo (key : String) : RuleKind → RuleKind → Prop
  | .node condition update, .node condition' update' =>
    condition.StripsTo key condition' ∧ update.StripsTo key update'
  | .edge pattern update, .edge pattern' update' =>
    pattern.StripsTo key pattern' ∧ update.StripsTo key update'
  | .graph pattern build, .graph pattern' build' =>
    pattern.StripsTo key pattern' ∧
      ∀ m : MatchedEdge, build' (m.strip key) = (build m).map (SubgraphSpec.strip key)
  | .unrecognized _, .unrecognized _ => True
  | _, _ => False

structure Rule.StripsTo (key : String) (rule rule' : Rule) : Prop where
  name : rule'.name = rule.name
  weight : rule'.weight = rule.weight
  kind : rule.kind.StripsTo key rule'.kind

def Tier.StripsTo (key : String) (tier tier' : Tier) : Prop :=
  List.Forall₂ (Rule.StripsTo key) tier.rules tier'.rules

def Grammar.StripsTo (key : String) (grammar grammar' : Grammar) : Prop :=
  List.Forall₂ (Tier.StripsTo key) grammar.tiers grammar'.tiers

structure Candidate.StripsTo (key : String) (c c' : Candidate) : Prop where
  rule : c.rule.StripsTo key c'.rule
  site : c'.site = c.site

structure CandidateSet.StripsTo (key : String) (set set' : CandidateSet) : Prop where
  tier : set'.tier = set.tier
  candidates : List.Forall₂ (Candidate.StripsTo key) set.candidates set'.candidates

namespace Graph

variable {g : Graph}

theorem matchingEdges_strip {pattern pattern' : EdgePattern}
    (alike : pattern.StripsTo key pattern') :
    (g.strip key).matchingEdges pattern' = g.matchingEdges pattern := by
  have pointwise : (g.strip key).matchesEdge pattern' ∘ Edge.strip key = g.matchesEdge pattern := by
    funext edge
    have srcStripped : (g.strip key).node? (edge.strip key).src = (g.node? edge.src).map (Node.strip key) :=
      node?_strip ..
    have destStripped :
        (g.strip key).node? (edge.strip key).dest = (g.node? edge.dest).map (Node.strip key) :=
      node?_strip ..
    rw [Function.comp_apply, matchesEdge, matchesEdge, srcStripped, destStripped]
    cases hsrc : g.node? edge.src with
    | none => rfl
    | some src =>
      cases hdest : g.node? edge.dest with
      | none => rfl
      | some dest => exact alike ⟨src, dest, edge⟩ g
  unfold matchingEdges
  rw [edges_strip, List.filter_map, List.map_map, pointwise]
  rfl

theorem matchingNodes_strip {condition condition' : Condition Node}
    (alike : condition.StripsTo key condition') :
    (g.strip key).matchingNodes condition' = g.matchingNodes condition := by
  have pointwise : (fun n => condition'.accepts n (g.strip key)) ∘ Node.strip key =
      fun n => condition.accepts n g := funext fun node => alike node g
  unfold matchingNodes
  rw [nodes_strip, List.filter_map, List.map_map, pointwise]
  rfl

theorem sites_strip {kind kind' : RuleKind} (alike : kind.StripsTo key kind') :
    (g.strip key).sites kind' = g.sites kind := by
  cases kind with
  | node condition update =>
    cases kind' with
    | node condition' update' => exact matchingNodes_strip alike.1
    | _ => cases alike
  | edge pattern update =>
    cases kind' with
    | edge pattern' update' => exact matchingEdges_strip alike.1
    | _ => cases alike
  | graph pattern build =>
    cases kind' with
    | graph pattern' build' => exact matchingEdges_strip alike.1
    | _ => cases alike
  | unrecognized name =>
    cases kind' with
    | unrecognized name' => rfl
    | _ => cases alike

theorem tierCandidates_strip {tier tier' : Tier} (alike : tier.StripsTo key tier') :
    List.Forall₂ (Candidate.StripsTo key) (g.tierCandidates tier) ((g.strip key).tierCandidates tier') := by
  refine List.rel_flatMap alike fun rule rule' same => ?_
  rw [sites_strip same.kind]
  induction g.sites rule.kind with
  | nil => exact .nil
  | cons site rest ih => exact .cons ⟨same, rfl⟩ ih

theorem candidatesFrom_strip {tiers tiers' : List Tier}
    (alike : List.Forall₂ (Tier.StripsTo key) tiers tiers') (number : Nat) :
    Option.Rel (CandidateSet.StripsTo key) (g.candidatesFrom number tiers)
      ((g.strip key).candidatesFrom number tiers') := by
  induction alike generalizing number with
  | nil => exact .none
  | cons same _ ih =>
    have candidates := tierCandidates_strip (g := g) same
    unfold candidatesFrom
    revert candidates
    generalize g.tierCandidates _ = left
    generalize (g.strip key).tierCandidates _ = right
    intro candidates
    cases candidates with
    | nil => exact ih (number + 1)
    | cons first rest => exact .some ⟨rfl, .cons first rest⟩

theorem applyAt_strip {kind kind' : RuleKind} (alike : kind.StripsTo key kind') (site : Site) :
    (g.strip key).applyAt kind' site =
      ((g.applyAt kind site).1, (g.applyAt kind site).2.strip key) := by
  cases kind with
  | node condition update =>
    cases kind' with
    | node condition' update' =>
      cases site with
      | node id =>
        simp only [applyAt, hasNode_strip]
        split
        · rw [modifyNodeLabel_strip alike.2]
        · rfl
      | edge => rfl
    | _ => cases alike
  | edge pattern update =>
    cases kind' with
    | edge pattern' update' =>
      cases site with
      | node => rfl
      | edge id src dest =>
        simp only [applyAt, hasEdge_strip]
        split
        · rw [modifyEdgeLabel_strip alike.2]
        · rfl
    | _ => cases alike
  | graph pattern build =>
    cases kind' with
    | graph pattern' build' =>
      cases site with
      | node => rfl
      | edge id src dest =>
        exact replaceEdge_strip alike.2
    | _ => cases alike
  | unrecognized name =>
    cases kind' with
    | unrecognized name' => rfl
    | _ => cases alike

end Graph

namespace RunState

def strip (key : String) (s : RunState) : RunState := { s with graph := s.graph.strip key }

theorem getElem?_strip {left right : List Candidate}
    (alike : List.Forall₂ (Candidate.StripsTo key) left right) (i : Nat) :
    Option.Rel (Candidate.StripsTo key) left[i]? right[i]? := by
  induction alike generalizing i with
  | nil => exact .none
  | cons first _ ih =>
    cases i with
    | zero => exact .some first
    | succ i => exact ih i

theorem draw_strip {left right : List Candidate}
    (alike : List.Forall₂ (Candidate.StripsTo key) left right) (generator : Generator) :
    Option.Rel (Candidate.StripsTo key) (draw left generator).1 (draw right generator).1 ∧
      (draw right generator).2 = (draw left generator).2 := by
  have weights : right.map (fun c => c.rule.weight) = left.map fun c => c.rule.weight := by
    induction alike with
    | nil => rfl
    | cons first _ ih => rw [List.map_cons, List.map_cons, ih, first.rule.weight]
  unfold draw
  rw [weights]
  refine ⟨?_, rfl⟩
  change Option.Rel _
    ((generator.weighted (left.map fun c => c.rule.weight)).1.bind fun i => left[i]?)
    ((generator.weighted (left.map fun c => c.rule.weight)).1.bind fun i => right[i]?)
  cases (generator.weighted (left.map fun c => c.rule.weight)).1 with
  | none => exact .none
  | some i => exact getElem?_strip alike i

theorem step_strip {grammar grammar' : Grammar} (alike : grammar.StripsTo key grammar') (s : RunState) :
    (s.strip key).step grammar' = ((s.step grammar).1, (s.step grammar).2.strip key) := by
  have sets : Option.Rel (CandidateSet.StripsTo key) (s.graph.candidates? grammar)
      ((s.strip key).graph.candidates? grammar') := Graph.candidatesFrom_strip alike 0
  cases found : s.graph.candidates? grammar with
  | none =>
    cases found' : (s.strip key).graph.candidates? grammar' with
    | none => rw [step_of_candidates?_eq_none found, step_of_candidates?_eq_none found']
    | some set' =>
      rw [found, found'] at sets
      cases sets
  | some set =>
    cases found' : (s.strip key).graph.candidates? grammar' with
    | none =>
      rw [found, found'] at sets
      cases sets
    | some set' =>
      rw [found, found'] at sets
      obtain ⟨⟨tier, candidates⟩⟩ := sets
      -- A draw sees nothing of the candidates but their weights.
      obtain ⟨drawn, same⟩ := draw_strip candidates s.generator
      cases first : draw set.candidates s.generator with
      | mk c generator =>
        cases second : draw set'.candidates (s.strip key).generator with
        | mk c' generator' =>
          change draw set'.candidates s.generator = _ at second
          rw [first, second] at drawn same
          cases same
          cases drawn with
          | none =>
            rw [step_of_draw_eq_none found first, step_of_draw_eq_none found' second]
            rfl
          | some alike =>
            obtain ⟨⟨name, _, kind⟩, site⟩ := alike
            have applied := Graph.applyAt_strip (g := s.graph) kind
            rw [step_of_draw_eq_some found first, step_of_draw_eq_some found' second]
            rw [Graph.apply, site, name, tier, ← candidates.length_eq]
            change (_, RunState.mk ((s.graph.strip key).applyAt _ _).2 _) = _
            simp only [strip]
            rw [applied]
            rfl

theorem trace_strip {grammars grammars' : List Grammar}
    (alike : List.Forall₂ (Grammar.StripsTo key) grammars grammars') (s : RunState) :
    (s.strip key).trace grammars' =
      (s.trace grammars).map fun (outcome, t) => (outcome, t.strip key) := by
  induction alike generalizing s with
  | nil => rfl
  | @cons grammar grammar' rest rest' same _ ih =>
    rw [trace, trace, step_strip same s, List.map_cons, ih]

end RunState

end GraphGrammar
