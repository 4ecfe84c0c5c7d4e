import GraphGrammar.Id.Basic

/-!
Fresh ids. A node id and an edge id are taken from counters of their own that only grow, so that no id
is handed out twice. Ids that come from elsewhere are observed, which moves the counter past them.
-/

namespace GraphGrammar

structure Allocator where
  nextNode : UInt64
  nextEdge : UInt64
deriving DecidableEq, Inhabited

namespace Allocator

def start : Allocator := ⟨0, 0⟩

def peekNode (a : Allocator) : NodeId := ⟨a.nextNode⟩

def peekEdge (a : Allocator) : EdgeId := ⟨a.nextEdge⟩

def takeNode (a : Allocator) : NodeId × Allocator :=
  (a.peekNode, { a with nextNode := a.nextNode + 1 })

def takeEdge (a : Allocator) : EdgeId × Allocator :=
  (a.peekEdge, { a with nextEdge := a.nextEdge + 1 })

/-- The successor of a number, the greatest word being its own. -/
def successor (n : UInt64) : UInt64 := if n + 1 = 0 then n else n + 1

def observeNode (a : Allocator) (id : NodeId) : Allocator :=
  { a with nextNode := max a.nextNode (successor id.index) }

def observeEdge (a : Allocator) (id : EdgeId) : Allocator :=
  { a with nextEdge := max a.nextEdge (successor id.index) }

/-- Continues from stored counters, unless this allocator is already further. -/
def resumeFrom (a : Allocator) (node : NodeId) (edge : EdgeId) : Allocator :=
  ⟨max a.nextNode node.index, max a.nextEdge edge.index⟩

end Allocator

end GraphGrammar
