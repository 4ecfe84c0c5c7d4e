import GraphGrammar.Text.Basic

/-!
Identities of nodes and edges. A node and an edge are named by a letter of their own and a number, so
that no text names both. Reading is wider than writing: a plus sign and leading zeros are accepted.
-/

namespace GraphGrammar

structure NodeId where
  index : UInt64
deriving DecidableEq, Inhabited

structure EdgeId where
  index : UInt64
deriving DecidableEq, Inhabited

inductive IdKind where
  | node
  | edge
deriving DecidableEq

namespace IdKind

def letter : IdKind → Char
  | node => 'n'
  | edge => 'e'

def name : IdKind → String
  | node => "node"
  | edge => "edge"

def render (kind : IdKind) (index : UInt64) : String :=
  String.ofList (kind.letter :: Nat.toDigits 10 index.toNat)

def parse? (kind : IdKind) (text : String) : Option UInt64 :=
  match text.toList with
  | [] => none
  | c :: numeral => if c = kind.letter then Text.word? numeral else none

end IdKind

structure MalformedId where
  kind : IdKind
  text : String
deriving DecidableEq

def MalformedId.message (e : MalformedId) : String :=
  "invalid " ++ e.kind.name ++ " id: " ++ Text.quoted e.text

namespace NodeId

def text (id : NodeId) : String := IdKind.node.render id.index

def parse? (s : String) : Option NodeId := (IdKind.node.parse? s).map NodeId.mk

def ofText (s : String) : Except MalformedId NodeId :=
  match parse? s with
  | some id => .ok id
  | none => .error ⟨.node, s⟩

end NodeId

namespace EdgeId

def text (id : EdgeId) : String := IdKind.edge.render id.index

def parse? (s : String) : Option EdgeId := (IdKind.edge.parse? s).map EdgeId.mk

def ofText (s : String) : Except MalformedId EdgeId :=
  match parse? s with
  | some id => .ok id
  | none => .error ⟨.edge, s⟩

end EdgeId

/-! ## Order

Ids are ordered by their numbers. -/

instance : Ord NodeId := ⟨compareOn NodeId.index⟩

instance : Std.TransOrd NodeId := inferInstanceAs (Std.TransCmp (compareOn NodeId.index))

instance : Std.LawfulEqOrd NodeId where
  eq_of_compare h :=
    congrArg NodeId.mk (Std.LawfulEqOrd.eq_of_compare (α := UInt64) h)

instance : Ord EdgeId := ⟨compareOn EdgeId.index⟩

instance : Std.TransOrd EdgeId := inferInstanceAs (Std.TransCmp (compareOn EdgeId.index))

instance : Std.LawfulEqOrd EdgeId where
  eq_of_compare h :=
    congrArg EdgeId.mk (Std.LawfulEqOrd.eq_of_compare (α := UInt64) h)

end GraphGrammar
