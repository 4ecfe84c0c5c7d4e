import GraphGrammar.Graph.Basic
import GraphGrammar.Label.Matching

/-!
Left-hand sides: the conditions under which a rule matches a node, or an edge with its endpoints.
-/

namespace GraphGrammar

class Labelled (α : Type) where
  label : α → Label

instance : Labelled Node := ⟨Node.label⟩
instance : Labelled Edge := ⟨Edge.label⟩

/-- A condition on a node or an edge of a graph. -/
inductive Condition (α : Type) where
  | any
  /-- The pattern matches inside the label. -/
  | pattern (pattern : Label)
  | predicate (test : α → Graph → Bool)

namespace Condition

instance : Inhabited (Condition α) := ⟨any⟩

/-- The condition of an optional pattern, which admits everything if it is absent. -/
def ofPattern? : Option Label → Condition α
  | some p => pattern p
  | none => any

def accepts [Labelled α] (condition : Condition α) (entity : α) (g : Graph) : Bool :=
  match condition with
  | any => true
  | pattern p => p.isSubsetOf (Labelled.label entity)
  | predicate test => test entity g

end Condition

/-- The conditions on an edge and on its endpoints. -/
structure EdgePattern where
  src : Condition Node := .any
  dest : Condition Node := .any
  edge : Condition Edge := .any
deriving Inhabited

def EdgePattern.accepts (p : EdgePattern) (src dest : Node) (edge : Edge) (g : Graph) : Bool :=
  p.src.accepts src g && p.dest.accepts dest g && p.edge.accepts edge g

end GraphGrammar
