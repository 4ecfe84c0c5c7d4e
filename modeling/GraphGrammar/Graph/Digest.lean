import GraphGrammar.Blake3
import GraphGrammar.Graph.Basic
import GraphGrammar.Text.Basic

/-!
The digest of a graph. Nodes and edges are written to bytes in the order of their ids, their numbers
first, and the bytes are hashed. Every part that has no fixed length is preceded by its length, and every
value by a tag for its kind, so that the bytes of a part end where they say. The counters do not enter,
so graphs that hold the same nodes and edges have the same digest, however they were built.
-/

namespace GraphGrammar

/-- The eight bytes of a word, least significant first. -/
def wordBytes (w : UInt64) : List UInt8 :=
  (List.range 8).map fun i => (w >>> UInt64.ofNat (8 * i)).toUInt8

def lengthBytes (n : Nat) : List UInt8 := wordBytes (UInt64.ofNat n)

/-- The UTF-8 bytes of a text behind their number. -/
def stringBytes (s : String) : List UInt8 :=
  lengthBytes s.utf8ByteSize ++ s.toUTF8.toList

mutual

def Value.bytes : Value → List UInt8
  | .bool b => [0, if b then 1 else 0]
  | .num x => 1 :: wordBytes x.bits
  | .str s => 2 :: stringBytes s
  | .list items => 3 :: lengthBytes items.length ++ itemsBytes items
  | .map entries => 4 :: lengthBytes entries.length ++ entriesBytes entries
termination_by structural v => v

def itemsBytes : List Value → List UInt8
  | [] => []
  | v :: rest => v.bytes ++ itemsBytes rest
termination_by structural vs => vs

def entriesBytes : List (String × Value) → List UInt8
  | [] => []
  | (key, v) :: rest => stringBytes key ++ v.bytes ++ entriesBytes rest
termination_by structural es => es

end

def Label.bytes (label : Label) : List UInt8 :=
  lengthBytes label.entries.length ++ entriesBytes label.entries

def Node.bytes (node : Node) : List UInt8 := wordBytes node.id.index ++ node.label.bytes

/-- The bytes of a prerequisite behind a tag that says whether there is one. -/
def prereqBytes : Option Label → List UInt8
  | none => [0]
  | some prereq => 1 :: prereq.bytes

def Edge.bytes (edge : Edge) : List UInt8 :=
  wordBytes edge.id.index ++ wordBytes edge.src.index ++ wordBytes edge.dest.index ++
    edge.label.bytes ++ prereqBytes edge.prereq

def Graph.bytes (g : Graph) : List UInt8 :=
  lengthBytes g.nodes.length ++ g.nodes.flatMap Node.bytes ++
    lengthBytes g.edges.length ++ g.edges.flatMap Edge.bytes

def Graph.digest (g : Graph) : String :=
  String.ofList ((Blake3.digest g.bytes).flatMap fun b =>
    Text.hexadecimal (b.toNat / 16) ++ Text.hexadecimal (b.toNat % 16))

end GraphGrammar
