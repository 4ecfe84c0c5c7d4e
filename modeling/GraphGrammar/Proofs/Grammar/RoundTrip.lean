import GraphGrammar.Proofs.Grammar.Document
import GraphGrammar.Proofs.Json.RoundTrip

/-!
Grammars that are read back from their own text. An entry that a rule leaves out is read as left out and an
empty label as an empty label: the one matches everything, the other is a condition of its own.
-/

namespace GraphGrammar

open Json (Numeral Tree haveReadable areReadable_map haveReadable_optionalMember greatestDepth)
open Json.Reads (mapM_of_forall)
open Json.Fields (readRecord_object read_seq read_map read_given read_optionalMember)

structure LeftSide.Allowed (P : Label → Prop) (l : LeftSide) : Prop where
  node : ∀ p ∈ l.node, P p
  src : ∀ p ∈ l.src, P p
  dest : ∀ p ∈ l.dest, P p
  edge : ∀ p ∈ l.edge, P p

structure RuleDocument.Allowed (P : Label → Prop) (d : RuleDocument) : Prop where
  lhs : d.lhs.Allowed P
  rhs : d.rhs.Allowed P

def GrammarDocument.Allowed (P : Label → Prop) (d : GrammarDocument) : Prop :=
  ∀ tier ∈ d.tiers, ∀ rule ∈ tier.rules, rule.Allowed P

theorem readString_string (s : String) : Json.readString (.string s) = .ok s := rfl

theorem readBool_bool (b : Bool) : Json.readBool (.bool b) = .ok b := rfl

theorem readNumber_real (x : Number) : Json.readNumber (.number (.real x)) = .ok x := rfl

theorem stored_string {stored : Option String} :
    ∀ s ∈ stored, Tree.string s ≠ .null ∧ Json.readString (.string s) = .ok s := fun s _ =>
  ⟨(nomatch ·), readString_string s⟩

theorem stored_label {stored : Option Label} :
    ∀ p ∈ stored, p.toTree ≠ .null ∧ readLabel p.toTree = .ok p := fun p _ =>
  ⟨(nomatch ·), readLabel_toTree p⟩

theorem readNodeSpec_toTree (spec : NodeSpec) : readNodeSpec spec.toTree = .ok spec :=
  readRecord_object (read_seq (read_map (read_given rfl (readString_string spec.name)))
    (read_given rfl (readLabel_toTree spec.label)))

theorem readEdgeTemplate_toTree (t : EdgeTemplate) : readEdgeTemplate t.toTree = .ok t :=
  readRecord_object (read_seq (read_seq (read_seq (read_seq (read_map
    (read_given (by simp) (readBool_bool t.reemit)))
    (read_optionalMember (by simp) stored_string))
    (read_optionalMember (by simp) stored_string))
    (read_given (by simp) (readLabel_toTree t.label)))
    (read_optionalMember (by simp) stored_label))

theorem readTemplate_toTree (t : SubgraphTemplate) : readTemplate t.toTree = .ok t := by
  have nodes : Json.readList readNodeSpec (.array (t.nodes.map NodeSpec.toTree)) = .ok t.nodes :=
    mapM_of_forall fun n _ => readNodeSpec_toTree n
  have edges : Json.readList readEdgeTemplate (.array (t.edges.map EdgeTemplate.toTree)) = .ok t.edges :=
    mapM_of_forall fun e _ => readEdgeTemplate_toTree e
  exact readRecord_object (read_seq (read_map (read_given rfl nodes)) (read_given rfl edges))

theorem readLeftSide_toTree (l : LeftSide) : readLeftSide l.toTree = .ok l :=
  readRecord_object (read_seq (read_seq (read_seq (read_map
    (read_optionalMember (by simp) stored_label))
    (read_optionalMember (by simp) stored_label))
    (read_optionalMember (by simp) stored_label))
    (read_optionalMember (by simp) stored_label))

theorem readRightSide_toTree (r : RightSide) : readRightSide r.toTree = .ok r := by
  have subgraph : ∀ t ∈ r.subgraph, t.toTree ≠ .null ∧ readTemplate t.toTree = .ok t := fun t _ =>
    ⟨(nomatch ·), readTemplate_toTree t⟩
  exact readRecord_object (read_seq (read_seq (read_map
    (read_optionalMember (by simp) stored_label))
    (read_optionalMember (by simp) stored_label))
    (read_optionalMember (by simp) subgraph))

theorem readRule_toTree (d : RuleDocument) : readRule d.toTree = .ok d :=
  readRecord_object (read_seq (read_seq (read_seq (read_seq (read_map
    (read_given rfl (readString_string d.name)))
    (read_given rfl (readString_string d.kind)))
    (read_given rfl (readNumber_real d.weight)))
    (read_given rfl (readLeftSide_toTree d.lhs)))
    (read_given rfl (readRightSide_toTree d.rhs)))

theorem readTier_toTree (d : TierDocument) : readTier d.toTree = .ok d := by
  have rules : Json.readList readRule (.array (d.rules.map RuleDocument.toTree)) = .ok d.rules :=
    mapM_of_forall fun r _ => readRule_toTree r
  exact readRecord_object (read_seq (read_map (read_given rfl (readString_string d.name)))
    (read_given rfl rules))

theorem readGrammar_toTree (d : GrammarDocument) : readGrammar d.toTree = .ok d := by
  have tiers : Json.readList readTier (.array (d.tiers.map TierDocument.toTree)) = .ok d.tiers :=
    mapM_of_forall fun t _ => readTier_toTree t
  exact readRecord_object (read_map (read_given rfl tiers))

theorem NodeSpec.isReadable_toTree (spec : NodeSpec) : spec.toTree.isReadable = true := by
  simp [toTree, Tree.isReadable, haveReadable, spec.label.isReadable_toTree]

theorem EdgeTemplate.isReadable_toTree (t : EdgeTemplate) : t.toTree.isReadable = true := by
  have text (name : String) (stored : Option String) :
      haveReadable (Json.optionalMember name .string stored) = true :=
    haveReadable_optionalMember fun _ => rfl
  simp [toTree, Tree.isReadable, haveReadable, t.label.isReadable_toTree, text,
    haveReadable_optionalMember Label.isReadable_toTree]

theorem SubgraphTemplate.isReadable_toTree (t : SubgraphTemplate) : t.toTree.isReadable = true := by
  simp [toTree, Tree.isReadable, haveReadable, areReadable_map NodeSpec.isReadable_toTree,
    areReadable_map EdgeTemplate.isReadable_toTree]

theorem RuleDocument.isReadable_toTree (d : RuleDocument) : d.toTree.isReadable = true := by
  simp [toTree, LeftSide.toTree, RightSide.toTree, Tree.isReadable, haveReadable,
    haveReadable_optionalMember Label.isReadable_toTree,
    haveReadable_optionalMember SubgraphTemplate.isReadable_toTree]

theorem TierDocument.isReadable_toTree (d : TierDocument) : d.toTree.isReadable = true := by
  simp [toTree, Tree.isReadable, haveReadable, areReadable_map RuleDocument.isReadable_toTree]

theorem GrammarDocument.isReadable_toTree (d : GrammarDocument) : d.toTree.isReadable = true := by
  simp [toTree, Tree.isReadable, haveReadable, areReadable_map TierDocument.isReadable_toTree]

/-- A document with finite numbers that is nested no deeper than the parser goes is read back from its text,
in one line and over several. Each of its numbers has to be read back from its own text. -/
theorem GrammarDocument.text_reads_back {d : GrammarDocument}
    (within : d.toTree.Within Numeral.IsFinite greatestDepth)
    (numbers : ∀ n ∈ d.toTree.numerals, n.IsFinite → n.ReadsBack) :
    GrammarDocument.ofText d.text = .ok d ∧ GrammarDocument.ofText (d.toTree.pretty ++ "\n") = .ok d :=
  Json.readText_of_readsBack d.isReadable_toTree within numbers (readGrammar_toTree d)

/-- An empty condition that is there, entries that are not, and values of every kind. -/
theorem GrammarDocument.text_reads_back_with_empty_label :
    let half : Number := ⟨0x3fe0000000000000⟩
    let prereq : Label := .ofList [("keys", .list [.num half, .str "key"]), ("open", .map [("once", .bool true)])]
    let template : SubgraphTemplate := ⟨[⟨"$mid", ∅⟩], [⟨true, none, some "$mid", ∅, some prereq⟩]⟩
    let rule : RuleDocument :=
      { name := "split", kind := "graph", weight := half, lhs := { edge := some ∅ },
        rhs := { subgraph := some template } }
    let d : GrammarDocument := ⟨[⟨"grow", [rule]⟩]⟩
    GrammarDocument.ofText d.text = .ok d ∧ GrammarDocument.ofText (d.toTree.pretty ++ "\n") = .ok d := by
  intro half prereq template rule d
  have within : d.toTree.Within Numeral.IsFinite greatestDepth := by
    have finite : (Numeral.real half).IsFinite := by decide
    have nothing : treesOfEntries (∅ : Label).entries = [] := rfl
    have written : treesOfEntries prereq.entries = [("keys", .array [.number (.real half), .string "key"]),
      ("open", .object [("once", .bool true)])] := rfl
    simp [d, rule, template, greatestDepth, finite, nothing, written, GrammarDocument.toTree, TierDocument.toTree,
      RuleDocument.toTree, LeftSide.toTree, RightSide.toTree, SubgraphTemplate.toTree, NodeSpec.toTree,
      EdgeTemplate.toTree, Json.optionalMember, Label.toTree]
  have numbers : ∀ n ∈ d.toTree.numerals, n.ReadsBack := by decide +kernel
  exact text_reads_back within fun n member _ => numbers n member

end GraphGrammar
