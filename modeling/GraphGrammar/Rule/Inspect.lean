import GraphGrammar.Label.Inspect
import GraphGrammar.Rule.Basic

/-!
The text by which a grammar is inspected. Functions in it are shown by their kind alone.
-/

namespace GraphGrammar

def inspectFields (name : String) (fields : List (String × String)) : String :=
  name ++ " \x7b " ++ commaSeparated (fields.map fun (field, text) => field ++ ": " ++ text) ++ " \x7d"

def inspectList (texts : List String) : String := "[" ++ commaSeparated texts ++ "]"

def Condition.inspect : Condition α → String
  | any => "Any"
  | pattern p => "Structure(" ++ p.inspect ++ ")"
  | predicate _ => "Predicate(..)"

def EdgePattern.inspect (p : EdgePattern) : String :=
  inspectFields "EdgePattern" [
    ("src", p.src.inspect), ("dest", p.dest.inspect), ("edge", p.edge.inspect)]

def Update.inspect : Update → String
  | keep => "Keep"
  | merge patch => "Merge(" ++ patch.inspect ++ ")"
  | apply _ => "Apply(..)"

def RuleKind.inspect : RuleKind → String
  | node condition update =>
    inspectFields "Node" [("node", condition.inspect), ("update", update.inspect)]
  | edge pattern update =>
    inspectFields "Edge" [("pattern", pattern.inspect), ("update", update.inspect)]
  | graph pattern _ => "Graph \x7b pattern: " ++ pattern.inspect ++ ", .. \x7d"
  | unrecognized name => inspectFields "Unrecognized" [("kind", Text.quoted name)]

def Rule.inspect (rule : Rule) : String :=
  inspectFields "Rule" [
    ("name", Text.quoted rule.name), ("weight", rule.weight.inspect), ("kind", rule.kind.inspect)]

def Tier.inspect (tier : Tier) : String :=
  inspectFields "Subgrammar" [
    ("name", Text.quoted tier.name), ("rules", inspectList (tier.rules.map Rule.inspect))]

def Grammar.inspect (grammar : Grammar) : String :=
  inspectFields "Grammar" [("tiers", inspectList (grammar.tiers.map Tier.inspect))]

end GraphGrammar
