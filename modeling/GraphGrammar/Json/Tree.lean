import GraphGrammar.Json.Numeral

/-!
Documents as trees. A tree keeps the members of an object in the order of the text, also members that
are given twice: what they mean is for the reader of a certain kind of document to say. A text with a
fault has a tree as well, which goes as far as the text can be read and holds the fault where it stands.
-/

namespace GraphGrammar.Json

inductive Tree where
  | null
  | bool (b : Bool)
  | number (n : Numeral)
  | string (s : String)
  | array (items : List Tree)
  | object (members : List (String × Tree))
  /-- A part that stands for no value: a number out of range, a text with half a surrogate pair or a
  stray byte, a part that is nested too deeply, or the place where the text breaks off. -/
  | unreadable
  /-- An object that can be read as far as the given members go. What stands in the place of the next key
  is no key. -/
  | damaged (members : List (String × Tree)) (next : Tree)
deriving Inhabited

mutual

def Tree.isReadable : Tree → Bool
  | .null | .bool _ | .number _ | .string _ => true
  | .array items => areReadable items
  | .object members => haveReadable members
  | .unreadable | .damaged .. => false
termination_by structural t => t

def areReadable : List Tree → Bool
  | [] => true
  | t :: rest => t.isReadable && areReadable rest
termination_by structural ts => ts

def haveReadable : List (String × Tree) → Bool
  | [] => true
  | (_, t) :: rest => t.isReadable && haveReadable rest
termination_by structural ms => ms

end

end GraphGrammar.Json
