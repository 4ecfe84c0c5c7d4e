import GraphGrammar.Grammar.Document
import GraphGrammar.Proofs.Engine.Development
import GraphGrammar.Proofs.Label.Document

/-!
The rules of a grammar document write labels that a graph document can hold: what they write comes from
the match, from the document and from merging the two.
-/

namespace GraphGrammar

open Json (Numeral Reads greatestDepth)
open Json.Reads (gives_any gives_readList)
open Json.Fields (gives_readRecord gives_seq gives_map gives_required gives_withDefault gives_optional)

variable {P : Label → Prop}

structure EdgeTemplate.Allowed (P : Label → Prop) (t : EdgeTemplate) : Prop where
  label : P t.label
  prereq : ∀ p ∈ t.prereq, P p

structure SubgraphTemplate.Allowed (P : Label → Prop) (t : SubgraphTemplate) : Prop where
  node : ∀ n ∈ t.nodes, P n.label
  edge : ∀ e ∈ t.edges, e.Allowed P

structure RightSide.Allowed (P : Label → Prop) (r : RightSide) : Prop where
  node : ∀ p ∈ r.node, P p
  edge : ∀ p ∈ r.edge, P p
  subgraph : ∀ t ∈ r.subgraph, t.Allowed P

/-- Predicates that templates stay within. -/
structure Templates (P : Label → Prop) : Prop where
  merge : ∀ {label patch}, P label → P patch → P (label.merge patch)
  texts : IgnoresTexts P

namespace Templates

variable (closed : Templates P)

include closed

theorem instantiateEdge {t : EdgeTemplate} (ok : t.Allowed P) {m : MatchedEdge} (matched : m.Allowed P) :
    P (t.instantiate m).label ∧ ∀ p ∈ (t.instantiate m).prereq, P p := by
  have reserved (f : String → Option String) {prereq : Option Label} (all : ∀ p ∈ prereq, P p) :
      ∀ p ∈ prereq.map (Label.mapStrings f), P p := by
    intro p member
    obtain ⟨old, there, rfl⟩ := Option.map_eq_some_iff.mp member
    exact closed.texts f old (all old there)
  have either {first second : Option Label} (one : ∀ p ∈ first, P p) (other : ∀ p ∈ second, P p) :
      ∀ p ∈ first.or second, P p := by
    intro p member
    rcases Option.or_eq_some_iff.mp member with here | ⟨_, there⟩
    · exact one p here
    · exact other p there
  unfold EdgeTemplate.instantiate
  cases t.reemit with
  | true =>
    exact ⟨closed.texts _ _ (closed.merge matched.edge.label ok.label),
      reserved _ (either ok.prereq matched.edge.prereq)⟩
  | false =>
    exact ⟨closed.texts _ _ ok.label, reserved _ (either ok.prereq fun _ absent => nomatch absent)⟩

theorem instantiate {t : SubgraphTemplate} (ok : t.Allowed P) {m : MatchedEdge} (matched : m.Allowed P) :
    (t.instantiate m).Allowed P where
  node := ok.node
  edge e member := by
    obtain ⟨template, listed, rfl⟩ := List.mem_map.mp member
    exact (closed.instantiateEdge (ok.edge template listed) matched).1
  prereq e member := by
    obtain ⟨template, listed, rfl⟩ := List.mem_map.mp member
    exact (closed.instantiateEdge (ok.edge template listed) matched).2

theorem ofPatch? {patch : Option Label} (ok : ∀ p ∈ patch, P p) {label : Label} (before : P label) :
    P ((Update.ofPatch? patch).run label) := by
  cases patch with
  | none => exact before
  | some patch => exact closed.merge before (ok patch rfl)

theorem ruleKind {d : RuleDocument} (ok : d.rhs.Allowed P) : d.ruleKind.Keeps P := by
  unfold RuleDocument.ruleKind
  split
  · exact fun _ before => closed.ofPatch? ok.node before
  · split
    · exact fun _ before => closed.ofPatch? ok.edge before
    · split
      · intro m spec matched built
        obtain ⟨t, there, rfl⟩ := Option.map_eq_some_iff.mp built
        exact closed.instantiate (ok.subgraph t there) matched
      · trivial

theorem grammar {d : GrammarDocument} (ok : ∀ tier ∈ d.tiers, ∀ rule ∈ tier.rules, rule.rhs.Allowed P) :
    d.grammar.Keeps P := by
  intro tier inGrammar rule inTier
  obtain ⟨tierDocument, listed, rfl⟩ := List.mem_map.mp inGrammar
  obtain ⟨ruleDocument, there, rfl⟩ := List.mem_map.mp inTier
  exact closed.ruleKind (ok tierDocument listed ruleDocument there)

end Templates

theorem templates_fitsGraph : Templates Label.FitsGraph where
  merge := Label.within_merge
  texts f _ := Label.within_mapStrings f

theorem readNodeSpec_gives {levels : Nat} (small : levels ≤ greatestDepth - 3) :
    Reads.Gives Numeral.IsFinite (levels + 1) readNodeSpec fun n => Label.FitsGraph n.label := by
  refine gives_readRecord (gives_seq (gives_map (gives_required _ (gives_any _)) ?_)
    (gives_withDefault _ (readLabel_fitsGraph small) Label.within_empty))
  exact fun _ _ _ ok => ok

theorem readEdgeTemplate_gives {levels : Nat} (small : levels ≤ greatestDepth - 3) :
    Reads.Gives Numeral.IsFinite (levels + 1) readEdgeTemplate (EdgeTemplate.Allowed Label.FitsGraph) := by
  refine gives_readRecord (gives_seq (gives_seq (gives_seq (gives_seq (gives_map
    (gives_withDefault _ (gives_any _) trivial) ?_) (gives_optional _ (gives_any _)))
    (gives_optional _ (gives_any _))) (gives_withDefault _ (readLabel_fitsGraph small) Label.within_empty))
    (gives_optional _ (readLabel_fitsGraph small)))
  exact fun _ _ _ _ _ _ _ label _ prereq => ⟨label, prereq⟩

theorem readTemplate_gives {levels : Nat} (small : levels ≤ greatestDepth - 3) :
    Reads.Gives Numeral.IsFinite (levels + 3) readTemplate
      (SubgraphTemplate.Allowed Label.FitsGraph) := by
  refine gives_readRecord (gives_seq (gives_map
    (gives_withDefault _ (gives_readList (readNodeSpec_gives small)) (List.forall_mem_nil _)) ?_)
    (gives_withDefault _ (gives_readList (readEdgeTemplate_gives small)) (List.forall_mem_nil _)))
  exact fun _ nodes _ edges => ⟨nodes, edges⟩

theorem readRightSide_gives {levels : Nat} (small : levels + 3 ≤ greatestDepth - 3) :
    Reads.Gives Numeral.IsFinite (levels + 4) readRightSide (RightSide.Allowed Label.FitsGraph) := by
  have patch := readLabel_fitsGraph small
  have template := readTemplate_gives (Nat.le_trans (Nat.le_add_right levels 3) small)
  refine gives_readRecord (gives_seq (gives_seq (gives_map (gives_optional _ patch) ?_)
    (gives_optional _ patch)) (gives_optional _ template))
  exact fun _ node _ edge _ subgraph => ⟨node, edge, subgraph⟩

theorem readRule_gives {levels : Nat} (small : levels + 3 ≤ greatestDepth - 3) :
    Reads.Gives Numeral.IsFinite (levels + 5) readRule fun d => d.rhs.Allowed Label.FitsGraph := by
  have nothing : RightSide.Allowed Label.FitsGraph {} :=
    ⟨fun _ absent => (nomatch absent), fun _ absent => (nomatch absent), fun _ absent => nomatch absent⟩
  refine gives_readRecord (gives_seq (gives_seq (gives_seq (gives_seq (gives_map
    (gives_withDefault _ (gives_any _) trivial) ?_) (gives_required _ (gives_any _)))
    (gives_withDefault _ (gives_any _) trivial)) (gives_withDefault _ (gives_any _) trivial))
    (gives_withDefault _ (readRightSide_gives small) nothing))
  exact fun _ _ _ _ _ _ _ _ _ ok => ok

theorem readGrammar_gives :
    Reads.Gives Numeral.IsFinite greatestDepth readGrammar fun d =>
      ∀ tier ∈ d.tiers, ∀ rule ∈ tier.rules, rule.rhs.Allowed Label.FitsGraph := by
  have rule := @readRule_gives 118 (by decide)
  have tier : Reads.Gives Numeral.IsFinite 125 readTier fun t =>
      ∀ rule ∈ t.rules, rule.rhs.Allowed Label.FitsGraph := by
    refine gives_readRecord (gives_seq (gives_map (gives_withDefault _ (gives_any _) trivial) ?_)
      (gives_withDefault _ (gives_readList rule) (List.forall_mem_nil _)))
    exact fun _ _ _ rules => rules
  refine gives_readRecord (gives_map (gives_required _ (gives_readList tier)) ?_)
  exact fun _ tiers => tiers

theorem GrammarDocument.grammar_keeps {text : String} {d : GrammarDocument}
    (read : GrammarDocument.ofText text = .ok d) : d.grammar.Keeps Label.FitsGraph := by
  obtain ⟨tree, within, there⟩ := Json.exists_tree_of_readText read
  exact templates_fitsGraph.grammar (readGrammar_gives within there)

end GraphGrammar
