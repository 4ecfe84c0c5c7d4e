import GraphGrammar.Label.Basic
import GraphGrammar.Number.Decimal
import GraphGrammar.Text.Basic

/-!
The text by which a label is inspected: its tree with the kind of each value, texts quoted, and numbers
by their shortest decimal.
-/

namespace GraphGrammar

/-- Numbers are inspected without an exponent from 0.0001 up to 10 ^ 16, and a tie between two shortest
decimals goes to the upper one. -/
def inspectionStyle : Decimal.Style where
  lowestPositional := -4
  highestPositional := 15
  halfToEven := false

def Number.inspect (x : Number) : String := x.render inspectionStyle

/-- Texts in a row, with a comma and a space between two of them. -/
def commaSeparated (texts : List String) : String := String.intercalate ", " texts

mutual

def Value.inspect : Value → String
  | .bool b => if b then "Bool(true)" else "Bool(false)"
  | .num x => "Num(" ++ x.inspect ++ ")"
  | .str s => "Str(" ++ Text.quoted s ++ ")"
  | .list items => "List([" ++ commaSeparated (inspectItems items) ++ "])"
  | .map entries => "Map(Label(\x7b" ++ commaSeparated (inspectEntries entries) ++ "\x7d))"
termination_by structural v => v

def inspectItems : List Value → List String
  | [] => []
  | v :: rest => v.inspect :: inspectItems rest
termination_by structural vs => vs

def inspectEntries : List (String × Value) → List String
  | [] => []
  | (key, v) :: rest => (Text.quoted key ++ ": " ++ v.inspect) :: inspectEntries rest
termination_by structural es => es

end

def Label.inspect (label : Label) : String :=
  "Label(\x7b" ++ commaSeparated (inspectEntries label.entries) ++ "\x7d)"

end GraphGrammar
