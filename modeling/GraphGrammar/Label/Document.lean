import GraphGrammar.Json.Record

/-!
Labels in documents. A label is an object, and a key that is given twice keeps the last value. Every
value but null stands for a value of a label, and every number for a double. A value is taken in as a
whole before its kind is looked at.
-/

namespace GraphGrammar

open Json (Tree Reads)

mutual

def valueOf : Tree → Except DocumentError Value
  | .bool b => .ok (.bool b)
  | .number n => .ok (.num n.toNumber)
  | .string s => .ok (.str s)
  | .array items => do return .list (← valuesOf items)
  | .object members => do return (Label.ofList (← entriesOf members)).toValue
  | .null => .error (.invalid .mismatch)
  | .unreadable | .damaged .. => .error .malformed
termination_by structural t => t

def valuesOf : List Tree → Except DocumentError (List Value)
  | [] => .ok []
  | t :: rest => do return (← valueOf t) :: (← valuesOf rest)
termination_by structural ts => ts

def entriesOf : List (String × Tree) → Except DocumentError (List (String × Value))
  | [] => .ok []
  | (key, t) :: rest => do return (key, ← valueOf t) :: (← entriesOf rest)
termination_by structural ms => ms

end

def readValue : Reads Value := fun tree =>
  if tree.isReadable then valueOf tree else .error .malformed

def readEntries (members : List (String × Tree)) : Except DocumentError (List (String × Value)) :=
  members.mapM fun (key, tree) => do return (key, ← readValue tree)

def readLabel : Reads Label
  | .object members => do return Label.ofList (← readEntries members)
  | .damaged members _ => do
    let _ ← readEntries members
    throw .malformed
  | tree => Json.unexpected tree

mutual

def Value.toTree : Value → Tree
  | .bool b => .bool b
  | .num x => .number (.real x)
  | .str s => .string s
  | .list items => .array (treesOfItems items)
  | .map entries => .object (treesOfEntries entries)
termination_by structural v => v

def treesOfItems : List Value → List Tree
  | [] => []
  | v :: rest => v.toTree :: treesOfItems rest
termination_by structural vs => vs

def treesOfEntries : List (String × Value) → List (String × Tree)
  | [] => []
  | (key, v) :: rest => (key, v.toTree) :: treesOfEntries rest
termination_by structural es => es

end

def Label.toTree (label : Label) : Tree := .object (treesOfEntries label.entries)

end GraphGrammar
