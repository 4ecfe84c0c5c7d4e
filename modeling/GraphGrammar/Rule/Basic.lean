import GraphGrammar.Rule.Condition
import GraphGrammar.Rule.Subgraph

/-!
Rules and grammars. A rule updates the label of a node or of an edge, or replaces an edge by a subgraph.
The rules of a grammar are arranged in tiers, of which an earlier one goes before a later one.
-/

namespace GraphGrammar

inductive Update where
  | keep
  | merge (patch : Label)
  | apply (f : Label → Label)

namespace Update

instance : Inhabited Update := ⟨keep⟩

def ofPatch? : Option Label → Update
  | some patch => merge patch
  | none => keep

def run (update : Update) (label : Label) : Label :=
  match update with
  | keep => label
  | merge patch => label.merge patch
  | apply f => f label

end Update

inductive RuleKind where
  | node (condition : Condition Node) (update : Update)
  | edge (pattern : EdgePattern) (update : Update)
  /-- Removes an edge and inserts what is built from it, if anything is. -/
  | graph (pattern : EdgePattern) (build : MatchedEdge → Option SubgraphSpec)
  /-- A kind that is not known. Such a rule never matches. -/
  | unrecognized (name : String)
deriving Inhabited

def RuleKind.tag : RuleKind → String
  | node .. => "node"
  | edge .. => "edge"
  | graph .. => "graph"
  | unrecognized name => name

structure Rule where
  name : String
  weight : Number
  kind : RuleKind
deriving Inhabited

structure Tier where
  name : String
  rules : List Rule
deriving Inhabited

structure Grammar where
  tiers : List Tier
deriving Inhabited

def Grammar.ruleCount (grammar : Grammar) : Nat := (grammar.tiers.flatMap Tier.rules).length

end GraphGrammar
