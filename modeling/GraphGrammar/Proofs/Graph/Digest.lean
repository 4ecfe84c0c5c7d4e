import GraphGrammar.Graph.Digest
import GraphGrammar.Proofs.Graph.Listing
import GraphGrammar.Proofs.Graph.Loading
import GraphGrammar.Proofs.Label.Encoding

/-!
What the digest of a graph tells. The bytes that are hashed determine the nodes and the edges and are
determined by them, so graphs of equal digests have the same contents, or the hash took two different rows
of bytes to the same.
-/

namespace GraphGrammar

theorem selfDelimiting_nodeBytes : SelfDelimiting Node.bytes fun n => FitWords n.label.lengths := by
  rintro ⟨id, label⟩ ⟨id', label'⟩ rest rest' fits fits' same
  simp only [Node.bytes, List.append_assoc] at same
  obtain ⟨index, behindId⟩ := selfDelimiting_wordBytes trivial trivial same
  obtain ⟨rfl, tail⟩ := Label.selfDelimiting_bytes fits fits' behindId
  exact ⟨congrArg (Node.mk · label) (congrArg NodeId.mk index), tail⟩

theorem selfDelimiting_prereqBytes :
    SelfDelimiting prereqBytes fun prereq => ∀ p ∈ prereq, FitWords p.lengths := by
  intro prereq prereq' rest rest' fits fits' same
  cases prereq with
  | none =>
    cases prereq' with
    | none => exact ⟨rfl, (List.cons.inj same).2⟩
    | some => exact absurd (List.cons.inj same).1 (by decide)
  | some p =>
    cases prereq' with
    | none => exact absurd (List.cons.inj same).1 (by decide)
    | some p' =>
      obtain ⟨rfl, tail⟩ := Label.selfDelimiting_bytes (fits p rfl) (fits' p' rfl) (List.cons.inj same).2
      exact ⟨rfl, tail⟩

theorem selfDelimiting_edgeBytes :
    SelfDelimiting Edge.bytes (Edge.Allowed fun l => FitWords l.lengths) := by
  rintro ⟨⟨id⟩, ⟨src⟩, ⟨dest⟩, label, prereq⟩ ⟨⟨id'⟩, ⟨src'⟩, ⟨dest'⟩, label', prereq'⟩ rest rest' fits
    fits' same
  simp only [Edge.bytes, List.append_assoc] at same
  obtain ⟨rfl, behindId⟩ := selfDelimiting_wordBytes trivial trivial same
  obtain ⟨rfl, behindSrc⟩ := selfDelimiting_wordBytes trivial trivial behindId
  obtain ⟨rfl, behindDest⟩ := selfDelimiting_wordBytes trivial trivial behindSrc
  obtain ⟨rfl, behindLabel⟩ := Label.selfDelimiting_bytes fits.label fits'.label behindDest
  obtain ⟨rfl, tail⟩ := selfDelimiting_prereqBytes fits.prereq fits'.prereq behindLabel
  exact ⟨rfl, tail⟩

def byteText (b : UInt8) : List Char :=
  Text.hexadecimal (b.toNat / 16) ++ Text.hexadecimal (b.toNat % 16)

theorem byteText_eq (b : UInt8) :
    byteText b = [Nat.digitChar (b.toNat / 16), Nat.digitChar (b.toNat % 16)] := by
  have high : b.toNat / 16 < 16 := by
    have bound := b.toNat_lt
    omega
  have low : b.toNat % 16 < 16 := Nat.mod_lt _ (by decide)
  rw [byteText, Text.hexadecimal, Text.hexadecimal, Nat.toDigits_of_lt_base high,
    Nat.toDigits_of_lt_base low]
  rfl

theorem digitChar_inj : ∀ m < 16, ∀ n < 16, Nat.digitChar m = Nat.digitChar n → m = n := by decide

theorem byteText_inj {a b : UInt8} (same : byteText a = byteText b) : a = b := by
  have boundA := a.toNat_lt
  have boundB := b.toNat_lt
  rw [byteText_eq, byteText_eq, List.cons.injEq, List.cons.injEq] at same
  have high := digitChar_inj (a.toNat / 16) (by omega) (b.toNat / 16) (by omega) same.1
  have low := digitChar_inj (a.toNat % 16) (by omega) (b.toNat % 16) (by omega) same.2.1
  exact UInt8.toNat_inj.mp (by omega)

theorem length_byteText (b : UInt8) : (byteText b).length = 2 := by
  rw [byteText_eq]
  rfl

theorem selfDelimiting_byteText : SelfDelimiting byteText fun _ => True :=
  .of_length length_byteText fun _ _ => byteText_inj

theorem flatMap_byteText_inj {as bs : List UInt8} (same : as.flatMap byteText = bs.flatMap byteText) :
    as = bs := by
  have length (cs : List UInt8) : (cs.flatMap byteText).length = cs.length * 2 := by
    induction cs with
    | nil => rfl
    | cons b cs ih =>
      rw [List.flatMap_cons, List.length_append, length_byteText, ih, List.length_cons]
      omega
  have count : as.length = bs.length := by
    have texts := congrArg List.length same
    rw [length, length] at texts
    omega
  have whole : as.flatMap byteText ++ [] = bs.flatMap byteText ++ [] := by rw [same]
  exact (selfDelimiting_byteText.flatMap (fun _ _ => trivial) (fun _ _ => trivial) count whole).1

namespace Graph

/-- The same nodes and the same edges, with the bits of all numbers in them. -/
def SameContents (g h : Graph) : Prop :=
  (∀ id, g.node? id = h.node? id) ∧ ∀ id, g.edge? id = h.edge? id

/-- All lengths that are written for the digest fit into words. -/
structure Writable (g : Graph) : Prop where
  nodes : g.nodes.length < UInt64.size
  edges : g.edges.length < UInt64.size
  labels : g.Allowed fun l => FitWords l.lengths

variable {g h : Graph}

theorem SameContents.lists (same : SameContents g h) : g.nodes = h.nodes ∧ g.edges = h.edges := by
  have nodes : g.nodeMap = h.nodeMap := Std.ExtTreeMap.ext_getElem? same.1
  have edges : g.edgeMap = h.edgeMap := Std.ExtTreeMap.ext_getElem? same.2
  exact ⟨congrArg Std.ExtTreeMap.values nodes, congrArg Std.ExtTreeMap.values edges⟩

theorem bytes_of_sameContents (same : SameContents g h) : g.bytes = h.bytes := by
  obtain ⟨nodes, edges⟩ := same.lists
  rw [bytes, bytes, nodes, edges]

theorem lists_of_bytes (writable : g.Writable) (writable' : h.Writable) (same : g.bytes = h.bytes) :
    g.nodes = h.nodes ∧ g.edges = h.edges := by
  have node {g : Graph} (writable : g.Writable) : ∀ n ∈ g.nodes, FitWords n.label.lengths := by
    intro n listed
    obtain ⟨id, found⟩ := mem_nodes_iff.mp listed
    exact writable.labels.node found
  have edge {g : Graph} (writable : g.Writable) :
      ∀ e ∈ g.edges, e.Allowed fun l => FitWords l.lengths := by
    intro e listed
    obtain ⟨id, found⟩ := mem_edges_iff.mp listed
    exact writable.labels.edge found
  have whole : g.bytes ++ [] = h.bytes ++ [] := by rw [same]
  simp only [bytes, List.append_assoc] at whole
  obtain ⟨nodeCount, behindCount⟩ := selfDelimiting_lengthBytes writable.nodes writable'.nodes whole
  obtain ⟨nodes, behindNodes⟩ :=
    selfDelimiting_nodeBytes.flatMap (node writable) (node writable') nodeCount behindCount
  obtain ⟨edgeCount, behindEdgeCount⟩ :=
    selfDelimiting_lengthBytes writable.edges writable'.edges behindNodes
  obtain ⟨edges, _⟩ :=
    selfDelimiting_edgeBytes.flatMap (edge writable) (edge writable') edgeCount behindEdgeCount
  exact ⟨nodes, edges⟩

theorem sameContents_of_bytes (writable : g.Writable) (writable' : h.Writable)
    (same : g.bytes = h.bytes) : SameContents g h := by
  obtain ⟨nodes, edges⟩ := lists_of_bytes writable writable' same
  constructor
  · intro id
    apply Option.ext
    intro node
    rw [node?_eq_some_iff, node?_eq_some_iff, nodes]
  · intro id
    apply Option.ext
    intro edge
    rw [edge?_eq_some_iff, edge?_eq_some_iff, edges]

theorem hash_of_digest (same : g.digest = h.digest) :
    Blake3.digest g.bytes = Blake3.digest h.bytes :=
  flatMap_byteText_inj (String.ofList_injective same)

/-- The bytes that are hashed are the same exactly for graphs with the same nodes and edges, and no label is
written as a beginning of another one. So neither the counters nor the way in which a graph was built enter
its digest, and graphs with different contents share a digest only if different bytes share a hash. -/
theorem bytes_tell_contents :
    (∀ g h : Graph, g.Writable → h.Writable →
      (g.bytes = h.bytes ↔ SameContents g h)) ∧
    (∀ l m : Label, FitWords l.lengths → FitWords m.lengths → l.bytes <+: m.bytes → l = m) ∧
    (∀ g h : Graph, SameContents g h → g.digest = h.digest) ∧
    (∀ g h : Graph, g.Writable → h.Writable → g.digest = h.digest →
      SameContents g h ∨ g.bytes ≠ h.bytes ∧ Blake3.digest g.bytes = Blake3.digest h.bytes) := by
  refine ⟨fun g h writable writable' => ?_, fun l m => Label.selfDelimiting_bytes.eq_of_prefix,
    fun g h same => ?_, fun g h writable writable' same => ?_⟩
  · exact ⟨sameContents_of_bytes writable writable', bytes_of_sameContents⟩
  · rw [digest, digest, bytes_of_sameContents same]
  · by_cases bytes : g.bytes = h.bytes
    · exact .inl (sameContents_of_bytes writable writable' bytes)
    · exact .inr ⟨bytes, hash_of_digest same⟩

/-- A node whose label holds a zero, the same node with the other zero, which is numerically equal, and the
first one with counters that have moved on. -/
theorem bytes_tell_zeros :
    let plus : Label := .ofList [("heat", .num ⟨0⟩)]
    let minus : Label := .ofList [("heat", .num ⟨0x8000000000000000⟩)]
    let g : Graph := ((∅ : Graph).addNode plus).2
    let h : Graph := ((∅ : Graph).addNode minus).2
    let later : Graph := { g with ids := g.ids.resumeFrom ⟨7⟩ ⟨7⟩ }
    (g.Writable ∧ h.Writable ∧ later.Writable) ∧
      (plus == minus) = true ∧ g.bytes ≠ h.bytes ∧ ¬plus.bytes <+: minus.bytes ∧
      g.ids ≠ later.ids ∧ g.digest = later.digest ∧ (SameContents g later ∨
        g.bytes ≠ later.bytes ∧ Blake3.digest g.bytes = Blake3.digest later.bytes) := by
  intro plus minus g h later
  obtain ⟨tell, begins, share, collide⟩ := bytes_tell_contents
  have fits : FitWords plus.lengths := by decide
  have fits' : FitWords minus.lengths := by decide
  have writable : g.Writable :=
    ⟨by decide, by decide, (Mutation.addNode ∅ fits).allowed allowed_empty⟩
  have writable' : h.Writable :=
    ⟨by decide, by decide, (Mutation.addNode ∅ fits').allowed allowed_empty⟩
  have writableLater : later.Writable :=
    ⟨writable.nodes, writable.edges, writable.labels.node, writable.labels.edge⟩
  have digests : g.digest = later.digest := share g later ⟨fun _ => rfl, fun _ => rfl⟩
  have apart : plus ≠ minus := by
    intro same
    have heat := (Prod.mk.inj (List.cons.inj (Label.mk.inj same)).1).2
    exact absurd (Value.num.inj heat) (by decide)
  refine ⟨⟨writable, writable', writableLater⟩, by decide, fun same => ?_,
    fun begin => apart (begins plus minus fits fits' begin), by decide, digests,
    collide g later writable writableLater digests⟩
  have first : (∅ : Graph).ids.peekNode = ⟨0⟩ := rfl
  have node := ((tell g h writable writable').mp same).1 ⟨0⟩
  rw [node?_addNode, node?_addNode, if_pos first, if_pos first] at node
  exact apart (congrArg Node.label (Option.some.inj node))

end Graph

end GraphGrammar
