import GraphGrammar.Json.Tree
import GraphGrammar.Text.Basic

/-!
The text of a tree, in one line or laid out over several. Texts are escaped only where they have to be.
A number that is not finite is written as null, and so is a part that stands for no value.
-/

namespace GraphGrammar.Json

/-- Numbers are written without an exponent from 10 ^ -5 up to 10 ^ 16, and a tie between two shortest
decimals goes to the even one. -/
def numberStyle : Decimal.Style where
  lowestPositional := -5
  highestPositional := 15
  halfToEven := true

def Numeral.render : Numeral → String
  | natural n => String.ofList (Nat.toDigits 10 n.toNat)
  | negative n => String.ofList ('-' :: Nat.toDigits 10 n.toNat)
  | real x => if x.isFinite then x.render numberStyle else "null"

def writtenChar (c : Char) : List Char :=
  match c with
  | '"' => ['\\', '"']
  | '\\' => ['\\', '\\']
  | '\x08' => ['\\', 'b']
  | '\t' => ['\\', 't']
  | '\n' => ['\\', 'n']
  | '\x0c' => ['\\', 'f']
  | '\r' => ['\\', 'r']
  | c =>
    if c.toNat < 0x20 then
      ['\\', 'u', '0', '0'] ++ Text.hexadecimal (c.toNat / 16) ++ Text.hexadecimal (c.toNat % 16)
    else [c]

def writtenString (s : String) : String :=
  String.ofList ('"' :: s.toList.flatMap writtenChar ++ ['"'])

mutual

def Tree.render : Tree → String
  | .null | .unreadable => "null"
  | .bool b => if b then "true" else "false"
  | .number n => n.render
  | .string s => writtenString s
  | .array items => "[" ++ String.intercalate "," (renderItems items) ++ "]"
  | .object members | .damaged members _ =>
    "\x7b" ++ String.intercalate "," (renderMembers members) ++ "\x7d"
termination_by structural t => t

def renderItems : List Tree → List String
  | [] => []
  | t :: rest => t.render :: renderItems rest
termination_by structural ts => ts

def renderMembers : List (String × Tree) → List String
  | [] => []
  | (key, t) :: rest => (writtenString key ++ ":" ++ t.render) :: renderMembers rest
termination_by structural ms => ms

end

/-- A new line, indented by two spaces for each level. -/
def newLine (level : Nat) : String := String.ofList ('\n' :: List.replicate (2 * level) ' ')

/-- Parts between brackets, each on a line of its own. -/
def bracketed (opening closing : String) (level : Nat) : List String → String
  | [] => opening ++ closing
  | parts =>
    opening ++ newLine (level + 1) ++ String.intercalate ("," ++ newLine (level + 1)) parts ++
      newLine level ++ closing

mutual

/-- The text of a tree over several lines, inside the given number of arrays and objects. -/
def Tree.layOut (level : Nat) : Tree → String
  | .null | .unreadable => "null"
  | .bool b => if b then "true" else "false"
  | .number n => n.render
  | .string s => writtenString s
  | .array items => bracketed "[" "]" level (layOutItems (level + 1) items)
  | .object members | .damaged members _ =>
    bracketed "\x7b" "\x7d" level (layOutMembers (level + 1) members)
termination_by structural t => t

def layOutItems (level : Nat) : List Tree → List String
  | [] => []
  | t :: rest => t.layOut level :: layOutItems level rest
termination_by structural ts => ts

def layOutMembers (level : Nat) : List (String × Tree) → List String
  | [] => []
  | (key, t) :: rest =>
    (writtenString key ++ ": " ++ t.layOut level) :: layOutMembers level rest
termination_by structural ms => ms

end

def Tree.pretty (t : Tree) : String := t.layOut 0

end GraphGrammar.Json
