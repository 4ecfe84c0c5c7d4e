import GraphGrammar.Label.Basic

/-!
Comparison of labels. Two values are equal when their trees are and their numbers are numerically
equal. A label matches inside another one when each of its keys is there with a matching value: nested
labels may have more keys than the pattern names, all other values are compared by equality.
-/

namespace GraphGrammar

mutual

/-- Equality, in which the two zeros are equal and no NaN equals anything. -/
protected def Value.beq : Value → Value → Bool
  | .bool a, .bool b => a == b
  | .num x, .num y => x == y
  | .str s, .str t => s == t
  | .list as, .list bs => beqItems as bs
  | .map as, .map bs => beqEntries as bs
  | _, _ => false
termination_by structural v => v

def beqItems : List Value → List Value → Bool
  | [], [] => true
  | a :: as, b :: bs => a.beq b && beqItems as bs
  | _, _ => false
termination_by structural vs => vs

def beqEntries : List (String × Value) → List (String × Value) → Bool
  | [], [] => true
  | (j, a) :: as, (k, b) :: bs => j == k && a.beq b && beqEntries as bs
  | _, _ => false
termination_by structural es => es

end

instance : BEq Value := ⟨Value.beq⟩

instance : BEq Label := ⟨fun a b => beqEntries a.entries b.entries⟩

mutual

def Value.isSubsetOf : Value → Value → Bool
  | .map pattern, .map target => isSubsetOfEntries pattern target
  | pattern, target => pattern == target
termination_by structural v => v

def isSubsetOfEntries : List (String × Value) → List (String × Value) → Bool
  | [], _ => true
  | (key, pattern) :: rest, target =>
    (match Entries.find? key target with
      | some value => pattern.isSubsetOf value
      | none => false) && isSubsetOfEntries rest target
termination_by structural es => es

end

def Label.isSubsetOf (pattern target : Label) : Bool :=
  isSubsetOfEntries pattern.entries target.entries

end GraphGrammar
