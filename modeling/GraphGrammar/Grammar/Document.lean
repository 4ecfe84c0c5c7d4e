import GraphGrammar.Grammar.Template
import GraphGrammar.Json.Writer
import GraphGrammar.Label.Document
import GraphGrammar.Rule.Basic

/-!
Grammar documents. Left-hand sides are patterns, right-hand sides are patches or templates. A rule whose
kind is not known is kept, but never matches.
-/

namespace GraphGrammar

open Json (Tree Reads)

structure LeftSide where
  node : Option Label := none
  src : Option Label := none
  dest : Option Label := none
  edge : Option Label := none
deriving Inhabited

structure RightSide where
  node : Option Label := none
  edge : Option Label := none
  subgraph : Option SubgraphTemplate := none
deriving Inhabited

structure RuleDocument where
  name : String
  kind : String
  weight : Number
  lhs : LeftSide
  rhs : RightSide

structure TierDocument where
  name : String
  rules : List RuleDocument

structure GrammarDocument where
  tiers : List TierDocument

/-! ## Meaning -/

def LeftSide.edgePattern (l : LeftSide) : EdgePattern where
  src := .ofPattern? l.src
  dest := .ofPattern? l.dest
  edge := .ofPattern? l.edge

def RightSide.build (r : RightSide) (m : MatchedEdge) : Option SubgraphSpec :=
  r.subgraph.map fun t => t.instantiate m

def RuleDocument.ruleKind (d : RuleDocument) : RuleKind :=
  if d.kind = "node" then .node (.ofPattern? d.lhs.node) (.ofPatch? d.rhs.node)
  else if d.kind = "edge" then .edge d.lhs.edgePattern (.ofPatch? d.rhs.edge)
  else if d.kind = "graph" then .graph d.lhs.edgePattern d.rhs.build
  else .unrecognized d.kind

def RuleDocument.rule (d : RuleDocument) : Rule := ⟨d.name, d.weight, d.ruleKind⟩

def GrammarDocument.grammar (d : GrammarDocument) : Grammar :=
  ⟨d.tiers.map fun t => ⟨t.name, t.rules.map RuleDocument.rule⟩⟩

/-! ## Reading -/

def readNodeSpec : Reads NodeSpec :=
  Json.readRecord (NodeSpec.mk
    <$> .required "id" Json.readString
    <*> .withDefault "label" ∅ readLabel)

def readEdgeTemplate : Reads EdgeTemplate :=
  Json.readRecord (EdgeTemplate.mk
    <$> .withDefault "reemit" false Json.readBool
    <*> .optional "src" Json.readString
    <*> .optional "dest" Json.readString
    <*> .withDefault "label" ∅ readLabel
    <*> .optional "prereq" readLabel)

def readTemplate : Reads SubgraphTemplate :=
  Json.readRecord (SubgraphTemplate.mk
    <$> .withDefault "nodes" [] (Json.readList readNodeSpec)
    <*> .withDefault "edges" [] (Json.readList readEdgeTemplate))

def readLeftSide : Reads LeftSide :=
  Json.readRecord (LeftSide.mk
    <$> .optional "node" readLabel
    <*> .optional "src" readLabel
    <*> .optional "dest" readLabel
    <*> .optional "edge" readLabel)

def readRightSide : Reads RightSide :=
  Json.readRecord (RightSide.mk
    <$> .optional "node" readLabel
    <*> .optional "edge" readLabel
    <*> .optional "subgraph" readTemplate)

def readRule : Reads RuleDocument :=
  Json.readRecord (RuleDocument.mk
    <$> .withDefault "name" "" Json.readString
    <*> .required "kind" Json.readString
    <*> .withDefault "weight" 1 Json.readNumber
    <*> .withDefault "lhs" {} readLeftSide
    <*> .withDefault "rhs" {} readRightSide)

def readTier : Reads TierDocument :=
  Json.readRecord (TierDocument.mk
    <$> .withDefault "name" "" Json.readString
    <*> .withDefault "rules" [] (Json.readList readRule))

def readGrammar : Reads GrammarDocument :=
  Json.readRecord (GrammarDocument.mk <$> .required "subgrammars" (Json.readList readTier))

def SubgraphTemplate.ofText (text : String) : Except DocumentError SubgraphTemplate :=
  Json.readText readTemplate text

def GrammarDocument.ofText (text : String) : Except DocumentError GrammarDocument :=
  Json.readText readGrammar text

/-! ## Writing -/

def NodeSpec.toTree (spec : NodeSpec) : Tree :=
  .object [("id", .string spec.name), ("label", spec.label.toTree)]

def EdgeTemplate.toTree (t : EdgeTemplate) : Tree :=
  .object (("reemit", .bool t.reemit) ::
    (Json.optionalMember "src" .string t.src ++ Json.optionalMember "dest" .string t.dest ++
      ("label", t.label.toTree) :: Json.optionalMember "prereq" Label.toTree t.prereq))

def SubgraphTemplate.toTree (t : SubgraphTemplate) : Tree :=
  .object [
    ("nodes", .array (t.nodes.map NodeSpec.toTree)),
    ("edges", .array (t.edges.map EdgeTemplate.toTree))]

def LeftSide.toTree (l : LeftSide) : Tree :=
  .object (Json.optionalMember "node" Label.toTree l.node ++
    Json.optionalMember "src" Label.toTree l.src ++
    Json.optionalMember "dest" Label.toTree l.dest ++
    Json.optionalMember "edge" Label.toTree l.edge)

def RightSide.toTree (r : RightSide) : Tree :=
  .object (Json.optionalMember "node" Label.toTree r.node ++
    Json.optionalMember "edge" Label.toTree r.edge ++
    Json.optionalMember "subgraph" SubgraphTemplate.toTree r.subgraph)

def RuleDocument.toTree (d : RuleDocument) : Tree :=
  .object [
    ("name", .string d.name),
    ("kind", .string d.kind),
    ("weight", .number (.real d.weight)),
    ("lhs", d.lhs.toTree),
    ("rhs", d.rhs.toTree)]

def TierDocument.toTree (d : TierDocument) : Tree :=
  .object [("name", .string d.name), ("rules", .array (d.rules.map RuleDocument.toTree))]

def GrammarDocument.toTree (d : GrammarDocument) : Tree :=
  .object [("subgrammars", .array (d.tiers.map TierDocument.toTree))]

def GrammarDocument.text (d : GrammarDocument) : String := d.toTree.render

end GraphGrammar
