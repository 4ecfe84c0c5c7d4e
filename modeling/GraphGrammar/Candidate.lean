import GraphGrammar.Rule.Basic

/-!
Candidates: the places where the rules of a grammar match. A tier is looked at only if no earlier tier
has a candidate. Within a tier the candidates follow the rules, and those of one rule the ids.
-/

namespace GraphGrammar

inductive Site where
  | node (id : NodeId)
  /-- An edge with the endpoints that it had when it was found. -/
  | edge (id : EdgeId) (src dest : NodeId)
deriving DecidableEq

structure Candidate where
  rule : Rule
  site : Site

structure CandidateSet where
  tier : Nat
  candidates : List Candidate

namespace Graph

def matchingNodes (g : Graph) (condition : Condition Node) : List Site :=
  (g.nodes.filter fun n => condition.accepts n g).map fun n => .node n.id

def matchesEdge (g : Graph) (pattern : EdgePattern) (edge : Edge) : Bool :=
  match g.node? edge.src, g.node? edge.dest with
  | some src, some dest => pattern.accepts src dest edge g
  | _, _ => false

def matchingEdges (g : Graph) (pattern : EdgePattern) : List Site :=
  (g.edges.filter (g.matchesEdge pattern)).map fun e => .edge e.id e.src e.dest

def sites (g : Graph) : RuleKind → List Site
  | .node condition _ => g.matchingNodes condition
  | .edge pattern _ | .graph pattern _ => g.matchingEdges pattern
  | .unrecognized _ => []

def tierCandidates (g : Graph) (tier : Tier) : List Candidate :=
  tier.rules.flatMap fun rule => (g.sites rule.kind).map fun site => ⟨rule, site⟩

/-- The candidates of the first tier that has any, where the first tier has the given number. -/
def candidatesFrom (g : Graph) (number : Nat) : List Tier → Option CandidateSet
  | [] => none
  | tier :: rest =>
    match g.tierCandidates tier with
    | [] => candidatesFrom g (number + 1) rest
    | candidates => some ⟨number, candidates⟩

def candidates? (g : Graph) (grammar : Grammar) : Option CandidateSet :=
  g.candidatesFrom 0 grammar.tiers

end Graph

end GraphGrammar
