import GraphGrammar.Proofs.Dot.Quoting
import GraphGrammar.Proofs.Graph.History
import GraphGrammar.Proofs.Graph.Listing
import GraphGrammar.Proofs.Id.Text
import Mathlib.Data.List.Forall2

/-!
What a drawing says. Read with its quoted strings it is a header, one statement for each node and each edge
in the order of their ids, and a closing brace, whatever characters the labels hold. Another list of
statements has other tokens, so that nothing else can be read.
-/

namespace GraphGrammar.Dot

inductive Statement where
  | node (id : NodeId) (label : List Piece)
  | edge (src dest : NodeId) (label : List Piece) (isDashed : Bool)

def bare (s : String) : List Token := s.toList.map .bare

def quotedId (id : NodeId) : Token := .quoted (pieces id.text)

def Statement.tokens : Statement → List Token
  | node id label => bare "  " ++ quotedId id :: (bare " [label=" ++ .quoted label :: bare "];\n")
  | edge src dest label isDashed =>
    bare "  " ++ quotedId src :: (bare " -> " ++ quotedId dest :: (bare " [label=" ++
      .quoted label :: ((if isDashed then bare ", style=dashed" else []) ++ bare "];\n")))

def drawingTokens (statements : List Statement) : List Token :=
  bare "digraph warren \x7b\n  node [shape=box];\n" ++ (statements.flatMap Statement.tokens ++ bare "\x7d\n")

theorem quotedId_inj {a b : NodeId} : quotedId a = quotedId b ↔ a = b := by
  constructor
  · intro same
    have undone := congrArg (List.map Piece.undo) (Token.quoted.inj same)
    rw [map_undo_pieces, map_undo_pieces, String.toList_inj] at undone
    have back := congrArg NodeId.parse? undone
    rw [a.parse?_text, b.parse?_text] at back
    exact Option.some.inj back
  · rintro rfl
    rfl

theorem Statement.tokens_append_inj {a b : Statement} {more others : List Token}
    (same : a.tokens ++ more = b.tokens ++ others) : a = b ∧ more = others := by
  cases a with
  | node id label =>
    cases b with
    | node id' label' => simpa [tokens, bare, quotedId_inj, and_assoc] using same
    | edge => simp [tokens, bare] at same
  | edge src dest label isDashed =>
    cases b with
    | node => simp [tokens, bare] at same
    | edge src' dest' label' isDashed' =>
      cases isDashed <;> cases isDashed' <;> simp [tokens, bare, quotedId_inj, and_assoc] at same ⊢ <;>
        exact same

theorem Statement.tokens_ne_closing (a : Statement) (more : List Token) : a.tokens ++ more ≠ bare "\x7d\n" := by
  cases a <;> simp [tokens, bare]

theorem drawingTokens_inj {statements others : List Statement}
    (same : drawingTokens statements = drawingTokens others) : statements = others := by
  have rest := List.append_cancel_left same
  clear same
  induction statements generalizing others with
  | nil =>
    cases others with
    | nil => rfl
    | cons b others =>
      rw [List.flatMap_cons, List.append_assoc] at rest
      exact absurd rest.symm (b.tokens_ne_closing _)
  | cons a statements ih =>
    cases others with
    | nil =>
      rw [List.flatMap_cons, List.append_assoc] at rest
      exact absurd rest (a.tokens_ne_closing _)
    | cons b others =>
      simp only [List.flatMap_cons, List.append_assoc] at rest
      obtain ⟨rfl, tail⟩ := Statement.tokens_append_inj rest
      rw [ih tail]

def prereqCaption (prereq : Label) : String :=
  match prereq.string? "node_id" with
  | some id => "needs " ++ id
  | none => prereq.toTree.render

def nodeTexts (node : Node) : List String := node.id.text :: (caption? node.label).toList

def edgeTexts (edge : Edge) : List String :=
  (edge.label.string? "type").toList ++ (edge.label.string? "state").toList ++
    (edge.prereq.map prereqCaption).toList

def labelPieces (texts : List String) : List Piece := List.intercalate [lineBreakPiece] (texts.map pieces)

theorem escape_of_plain {s : String} (ordinary : ∀ c ∈ s.toList, c ≠ '"' ∧ c ≠ '\\') : escape s = s := by
  have kept : ∀ cs : List Char, (∀ c ∈ cs, c ≠ '"' ∧ c ≠ '\\') → cs.flatMap escapeChar = cs := by
    intro cs all
    induction cs with
    | nil => rfl
    | cons c rest ih =>
      obtain ⟨first, tail⟩ := List.forall_mem_cons.mp all
      simp [escapeChar, first, ih tail]
  rw [escape, kept _ ordinary, String.ofList_toList]

theorem plain_of_mem_text {id : NodeId} {c : Char} (member : c ∈ id.text.toList) : c ≠ '"' ∧ c ≠ '\\' := by
  rw [NodeId.text, IdKind.render, String.toList_ofList] at member
  rcases List.mem_cons.mp member with rfl | digit
  · decide
  · have isDigit := Nat.isDigit_of_mem_toDigits (by decide) (by decide) digit
    constructor <;> rintro rfl <;> cases isDigit

theorem nodeLines_eq (node : Node) : nodeLines node = (nodeTexts node).map escape := by
  rw [nodeLines, nodeTexts, List.map_cons, escape_of_plain fun _ => plain_of_mem_text]
  cases caption? node.label <;> rfl

theorem escape_append (s t : String) : escape (s ++ t) = escape s ++ escape t := by
  simp [escape, String.toList_append, String.ofList_append]

theorem prereqText_eq (prereq : Label) : prereqText prereq = escape (prereqCaption prereq) := by
  have needs : escape "needs " = "needs " := by decide +kernel
  cases named : prereq.string? "node_id" with
  | none => simp only [prereqText, prereqCaption, named]
  | some id => simp only [prereqText, prereqCaption, named, escape_append, needs]

theorem edgeLines_eq (edge : Edge) : edgeLines edge = (edgeTexts edge).map escape := by
  unfold edgeLines edgeTexts
  cases edge.label.string? "type" <;> cases edge.label.string? "state" <;> cases edge.prereq <;>
    simp [prereqText_eq]

theorem fills_lines (texts : List String) :
    Fills (String.intercalate lineBreak (texts.map escape)).toList (labelPieces texts) := by
  rw [String.toList_intercalate, List.map_map]
  exact fills_lineBreak.intercalate fun s _ => fills_escape s

def drawnNode (node : Node) : Statement := .node node.id (labelPieces (nodeTexts node))

def drawnEdge (edge : Edge) : Statement :=
  .edge edge.src edge.dest (labelPieces (edgeTexts edge)) (isDashed edge)

theorem reads_id (id : NodeId) : Reads ('"' :: (id.text.toList ++ ['"'])) [quotedId id] := by
  have fills := fills_escape id.text
  rw [escape_of_plain fun _ => plain_of_mem_text] at fills
  exact fills.reads

theorem reads_text (s : String) (unquoted : '"' ∉ s.toList) : Reads s.toList (bare s) := reads_bare unquoted

theorem reads_label (texts : List String) :
    Reads ('"' :: ((String.intercalate lineBreak (texts.map escape)).toList ++ ['"']))
      [.quoted (labelPieces texts)] :=
  (fills_lines texts).reads

theorem reads_nodeStatement (node : Node) : Reads (nodeStatement node).toList (drawnNode node).tokens := by
  have reads := (reads_text "  " (by decide)).append ((reads_id node.id).append
    ((reads_text " [label=" (by decide)).append ((reads_label (nodeTexts node)).append
      (reads_text "];\n" (by decide)))))
  rw [nodeStatement, nodeLines_eq]
  simpa [Statement.tokens, drawnNode] using reads

theorem reads_edgeStatement (edge : Edge) : Reads (edgeStatement edge).toList (drawnEdge edge).tokens := by
  have style : Reads (if isDashed edge then ", style=dashed" else "").toList
      (if isDashed edge then bare ", style=dashed" else []) := by
    split
    · exact reads_text ", style=dashed" (by decide)
    · exact fun _ => rfl
  have reads := (reads_text "  " (by decide)).append ((reads_id edge.src).append
    ((reads_text " -> " (by decide)).append ((reads_id edge.dest).append
      ((reads_text " [label=" (by decide)).append ((reads_label (edgeTexts edge)).append
        (style.append (reads_text "];\n" (by decide))))))))
  rw [edgeStatement, edgeLines_eq]
  simpa [Statement.tokens, drawnEdge] using reads

theorem reads_statements {opening closing : String} (opens : '"' ∉ opening.toList)
    (closes : '"' ∉ closing.toList) (nodes : List Node) (edges : List Edge) :
    Reads (opening ++ String.join (nodes.map nodeStatement) ++ String.join (edges.map edgeStatement) ++
        closing).toList
      (bare opening ++ ((nodes.map drawnNode ++ edges.map drawnEdge).flatMap Statement.tokens ++
        bare closing)) := by
  have drawn : Reads (nodes.flatMap fun n => (nodeStatement n).toList)
      (nodes.flatMap fun n => (drawnNode n).tokens) := Reads.flatMap fun n _ => reads_nodeStatement n
  have joined : Reads (edges.flatMap fun e => (edgeStatement e).toList)
      (edges.flatMap fun e => (drawnEdge e).tokens) := Reads.flatMap fun e _ => reads_edgeStatement e
  have reads := (reads_text opening opens).append (drawn.append (joined.append (reads_text closing closes)))
  simpa [String.toList_join, List.flatMap_map] using reads

theorem reads_render (g : Graph) :
    Reads (render g).toList (drawingTokens (g.nodes.map drawnNode ++ g.edges.map drawnEdge)) :=
  reads_statements (by decide +kernel) (by decide) g.nodes g.edges

/-- The statement names the node and shows its id and, if it has a caption, a line break and the caption. -/
def Statement.ShowsNode (s : Statement) (node : Node) : Prop :=
  ∃ label, s = .node node.id label ∧ label.map Piece.undo =
    node.id.text.toList ++ (caption? node.label).elim [] fun caption => '\n' :: caption.toList

/-- The statement names the ends of the edge and shows its texts on lines of their own. -/
def Statement.ShowsEdge (s : Statement) (edge : Edge) : Prop :=
  ∃ lines isDashed, s = .edge edge.src edge.dest (List.intercalate [lineBreakPiece] lines) isDashed ∧
    lines.map (List.map Piece.undo) = (edgeTexts edge).map String.toList ∧
    (∀ line ∈ lines, lineBreakPiece ∉ line) ∧
    (isDashed = true ↔ edge.label.string? "state" = some "locked")

theorem showsNode_drawnNode (node : Node) : (drawnNode node).ShowsNode node := by
  refine ⟨_, rfl, ?_⟩
  cases captioned : caption? node.label with
  | none => simp [labelPieces, nodeTexts, captioned, map_undo_pieces]
  | some caption => simp [labelPieces, nodeTexts, captioned, map_undo_pieces, lineBreakPiece, Piece.undo]

theorem showsEdge_drawnEdge (edge : Edge) : (drawnEdge edge).ShowsEdge edge := by
  refine ⟨(edgeTexts edge).map pieces, isDashed edge, rfl, ?_, ?_, by simp [isDashed]⟩
  · simp [map_undo_pieces, Function.comp_def]
  · exact List.forall_mem_map.mpr fun s _ => lineBreakPiece_notMem_pieces s

/-- The text of a drawing is read as one statement for each node and then one for each edge, in the order
of their ids, and as nothing else. -/
theorem render_reads (g : Graph) :
    ∃ nodes edges : List Statement,
      tokens? (render g) = some (drawingTokens (nodes ++ edges)) ∧
      (∀ others, tokens? (render g) = some (drawingTokens others) → others = nodes ++ edges) ∧
      List.Forall₂ Statement.ShowsNode nodes g.nodes ∧ List.Forall₂ Statement.ShowsEdge edges g.edges ∧
      ((g.nodes.map Node.id).Pairwise fun id next => id.index < next.index) ∧
      (g.edges.map Edge.id).Pairwise fun id next => id.index < next.index := by
  have read : tokens? (render g) = some (drawingTokens (g.nodes.map drawnNode ++ g.edges.map drawnEdge)) :=
    (reads_render g).tokens?
  refine ⟨g.nodes.map drawnNode, g.edges.map drawnEdge, read, fun others other => ?_, ?_, ?_,
    g.ascending_nodes, g.ascending_edges⟩
  · rw [read] at other
    exact (drawingTokens_inj (Option.some.inj other)).symm
  · exact List.forall₂_map_left_iff.mpr (List.forall₂_same.mpr fun n _ => showsNode_drawnNode n)
  · exact List.forall₂_map_left_iff.mpr (List.forall₂_same.mpr fun e _ => showsEdge_drawnEdge e)

/-- Quotes, backslashes, line breaks and arrows in a caption, a type and a prerequisite. -/
theorem render_reads_with_quotes :
    let vault : Label := .ofList [("role", .str "vault \"\\n\n -> ")]
    let path : Label := .ofList [("state", .str "locked"), ("type", .str "\"];\n")]
    let g := (Graph.history ∅ [.addNode vault, .addEdge ⟨0⟩ ⟨0⟩ path (some ∅)]).graph
    render g = "digraph warren \x7b\n  node [shape=box];\n" ++
        "  \"n0\" [label=\"n0\\nvault \\\"\\\\n\n -> \"];\n" ++
        "  \"n0\" -> \"n0\" [label=\"\\\"];\n\\nlocked\\n\x7b\x7d\", style=dashed];\n\x7d\n" ∧
      ∃ nodes edges, tokens? (render g) = some (drawingTokens (nodes ++ edges)) ∧
        nodes.length = 1 ∧ edges.length = 1 := by
  intro vault path g
  obtain ⟨nodes, edges, read, _, each, every, _⟩ := render_reads g
  have one : g.nodes.length = 1 ∧ g.edges.length = 1 := by decide +kernel
  exact ⟨by decide +kernel, nodes, edges, read, each.length_eq.trans one.1, every.length_eq.trans one.2⟩

end GraphGrammar.Dot
