import GraphGrammar.Candidate
import GraphGrammar.Proofs.Label.Subset
import Mathlib.Data.List.Basic

/-!
Matching as an order. Up to equality, matching is a partial order of labels. A rule whose patterns ask for more
is found at some of the sites only.
-/

namespace GraphGrammar

/-- Whether a test is a partial order among the things with some property: it is reflexive and transitive, and
it relates two things both ways exactly if they are equal. -/
structure OrdersUpToEquality {α : Type} [BEq α] (P : α → Prop) (le : α → α → Bool) : Prop where
  refl : ∀ a, P a → le a a = true
  trans : ∀ a b c, le a b = true → le b c = true → le a c = true
  antisymm : ∀ a b, P a → P b → ((le a b = true ∧ le b a = true) ↔ (a == b) = true)

theorem Value.orders_isSubsetOf : OrdersUpToEquality Value.Comparable Value.isSubsetOf where
  refl _ := isSubsetOf_refl
  trans _ _ _ := isSubsetOf_trans
  antisymm _ _ okV okW := by
    constructor
    · exact fun ⟨there, back⟩ => beq_of_isSubsetOf okV.ordered okW.ordered there back
    · exact fun same => ⟨isSubsetOf_of_beq okV.ordered same, isSubsetOf_of_beq okW.ordered (BEq.symm same)⟩

theorem Label.orders_isSubsetOf : OrdersUpToEquality Label.Comparable Label.isSubsetOf where
  refl a ok := Value.orders_isSubsetOf.refl a.toValue ok.toValue
  trans a b c := Value.orders_isSubsetOf.trans a.toValue b.toValue c.toValue
  antisymm a b okA okB := Value.orders_isSubsetOf.antisymm a.toValue b.toValue okA.toValue okB.toValue

/-- A condition stays as it is, or its pattern gives way to one that it matches inside. -/
inductive Condition.Narrows {α : Type} : Condition α → Condition α → Prop where
  | same (c : Condition α) : Narrows c c
  | pattern {p q : Label} (inside : p.isSubsetOf q = true) : Narrows (.pattern p) (.pattern q)

structure EdgePattern.Narrows (p q : EdgePattern) : Prop where
  src : p.src.Narrows q.src
  dest : p.dest.Narrows q.dest
  edge : p.edge.Narrows q.edge

inductive RuleKind.Narrows : RuleKind → RuleKind → Prop where
  | node {c d : Condition Node} (narrows : c.Narrows d) (update : Update) :
    Narrows (.node c update) (.node d update)
  | edge {p q : EdgePattern} (narrows : p.Narrows q) (update : Update) :
    Narrows (.edge p update) (.edge q update)
  | graph {p q : EdgePattern} (narrows : p.Narrows q) (build : MatchedEdge → Option SubgraphSpec) :
    Narrows (.graph p build) (.graph q build)

theorem Condition.Narrows.accepts {α : Type} [Labelled α] {c d : Condition α} (narrows : c.Narrows d)
    {entity : α} {g : Graph} (accepted : d.accepts entity g = true) : c.accepts entity g = true := by
  cases narrows with
  | same => exact accepted
  | pattern inside => exact Label.isSubsetOf_trans inside accepted

theorem EdgePattern.Narrows.accepts {p q : EdgePattern} (narrows : p.Narrows q) {src dest : Node} {edge : Edge}
    {g : Graph} (accepted : q.accepts src dest edge g = true) : p.accepts src dest edge g = true := by
  obtain ⟨ends, edge⟩ := Bool.and_eq_true_iff.mp accepted
  obtain ⟨src, dest⟩ := Bool.and_eq_true_iff.mp ends
  exact Bool.and_eq_true_iff.mpr ⟨Bool.and_eq_true_iff.mpr
    ⟨narrows.src.accepts src, narrows.dest.accepts dest⟩, narrows.edge.accepts edge⟩

namespace Graph

theorem matchingEdges_sublist {p q : EdgePattern} (narrows : p.Narrows q) (g : Graph) :
    (g.matchingEdges q).Sublist (g.matchingEdges p) := by
  refine (List.monotone_filter_right _ fun edge matched => ?_).map _
  unfold matchesEdge at matched ⊢
  split at matched
  · exact narrows.accepts matched
  · cases matched

theorem sites_sublist {kind narrower : RuleKind} (narrows : kind.Narrows narrower) (g : Graph) :
    (g.sites narrower).Sublist (g.sites kind) := by
  cases narrows with
  | node narrows => exact (List.monotone_filter_right _ fun _ => narrows.accepts).map _
  | edge narrows => exact matchingEdges_sublist narrows g
  | graph narrows => exact matchingEdges_sublist narrows g

/-- Matching is a partial order up to equality, on values and on labels. So a rule whose patterns give way to
patterns that ask for more is found at some of its sites, in the same order, and at no other ones. -/
theorem matching_orders :
    OrdersUpToEquality Value.Comparable Value.isSubsetOf ∧
    OrdersUpToEquality Label.Comparable Label.isSubsetOf ∧
    ∀ (g : Graph) (kind narrower : RuleKind), kind.Narrows narrower →
      (g.sites narrower).Sublist (g.sites kind) :=
  ⟨Value.orders_isSubsetOf, Label.orders_isSubsetOf, fun g _ _ narrows => sites_sublist narrows g⟩

/-- Of two rooms, a rule that asks for a role as well finds one. -/
theorem matching_orders_rooms :
    let p : Label := .ofList [("type", .str "room")]
    let q : Label := p.insert "role" (.str "side")
    let g : Graph := (((∅ : Graph).addNode p).2.addNode q).2
    let rule (l : Label) : RuleKind := .node (.pattern l) .keep
    (p.Comparable ∧ q.Comparable ∧ p.isSubsetOf q = true ∧ (rule p).Narrows (rule q) ∧
      g.sites (rule p) = [.node ⟨0⟩, .node ⟨1⟩] ∧ g.sites (rule q) = [.node ⟨1⟩]) ∧
    p.isSubsetOf p = true ∧ ((p.isSubsetOf q = true ∧ q.isSubsetOf p = true) ↔ (p == q) = true) ∧
      (g.sites (rule q)).Sublist (g.sites (rule p)) := by
  intro p q g rule
  have okP : p.Comparable := by decide
  have okQ : q.Comparable := by decide
  have inside : p.isSubsetOf q = true := by decide
  have narrows : (rule p).Narrows (rule q) := .node (.pattern inside) .keep
  have all : g.sites (rule p) = [.node ⟨0⟩, .node ⟨1⟩] := by decide
  have one : g.sites (rule q) = [.node ⟨1⟩] := by decide
  obtain ⟨_, labels, rules⟩ := matching_orders
  exact ⟨⟨okP, okQ, inside, narrows, all, one⟩, labels.refl p okP, labels.antisymm p q okP okQ,
    rules g _ _ narrows⟩

end Graph

end GraphGrammar
