import GraphGrammar.Proofs.Dungeon.Rules
import GraphGrammar.Proofs.Graph.Tally
import GraphGrammar.Proofs.Label.Reading
import Mathlib.Algebra.Group.Nat.Defs

/-!
The depths of undecided paths. A rule that splits a path makes at most two paths of the next depth, and no
other rule makes an undecided path. This is shown with sums over the edges, since a sum also tells what
becomes of a graph whose ids run out, so that new records take the places of old ones.
-/

namespace GraphGrammar.Dungeon

variable {settings : DungeonSettings} {text : TextGenerator} {g : Graph} {m : MatchedEdge}
  {f : Number → Nat}

/-- A number for the depth of a path that counts as long as the path is undecided. -/
def onPaths (f : Number → Nat) (label : Label) : Nat :=
  if label.string? "type" = some "path" ∧ label.contains "state" = false then
    f ((label.number? "depth").getD 0)
  else 0

theorem onPaths_le {label : Label} {x : Number} (depth : label.number? "depth" = some x) :
    onPaths f label ≤ f x := by
  simp only [onPaths, depth, Option.getD_some]
  split
  · exact Nat.le_refl _
  · exact Nat.zero_le _

theorem onPaths_of_state {label : Label} (decided : label.contains "state" = true) :
    onPaths f label = 0 := by
  simp [onPaths, decided]

theorem onPaths_of_type {label : Label} {type : String} (named : label.string? "type" = some type)
    (other : type ≠ "path") : onPaths f label = 0 := by
  simp [onPaths, named, other]

theorem onPaths_of_undecided {edge : Edge} (undecided : isUndecidedPath edge = true) :
    onPaths f edge.label = f (depth edge) :=
  if_pos (isUndecidedPath_iff.mp undecided)

theorem onPaths_of_decided {edge : Edge} (decided : isUndecidedPath edge = false) :
    onPaths f edge.label = 0 :=
  if_neg (mt isUndecidedPath_iff.mpr (Bool.eq_false_iff.mp decided))

theorem onPaths_opened (label : Label) :
    onPaths f (label.merge (.ofList [("state", .str "open")])) = 0 :=
  onPaths_of_state (Label.contains_merge_self label "state" _)

section

variable {effort : Effort} (paths : effort.edge = onPaths f) (bindings : Bindings)

theorem edges_pair (effort : Effort) (bindings : Bindings) (e e' : EdgeSpec) :
    effort.edges bindings [e, e'] = effort.edge (e.label.mapStrings bindings.text?) +
      effort.edge (e'.label.mapStrings bindings.text?) := by
  simp [Effort.edges]

include paths

theorem edge_deeper_le {label : Label} (deeper : label.number? "depth" = some (depth m.edge + 1)) :
    effort.edge (label.mapStrings bindings.text?) ≤ f (depth m.edge + 1) := by
  rw [paths]
  apply onPaths_le
  rw [Label.number?_mapStrings, deeper]

theorem edge_corridor {label : Label} (named : label.string? "type" = some "corridor")
    (unbound : bindings.text? "corridor" = none) :
    effort.edge (label.mapStrings bindings.text?) = 0 := by
  have type : (label.mapStrings bindings.text?).string? "type" = some "corridor" := by
    simp [Label.string?_mapStrings, named, unbound]
  rw [paths]
  exact onPaths_of_type type (by decide)

theorem edges_insertChamber_le :
    effort.edges bindings (insertChamber m).edges ≤ 2 * f (depth m.edge + 1) := by
  have deep : (path (depth m.edge + 1)).number? "depth" = some (depth m.edge + 1) := rfl
  have way := edge_deeper_le paths bindings deep
  simp only [insertChamber, edges_pair]
  omega

theorem edges_forkPath_le : effort.edges bindings (forkPath m).edges ≤ 2 * f (depth m.edge + 1) := by
  have way := edge_deeper_le paths bindings (number?_deeper m)
  simp only [forkPath, edges_pair]
  omega

theorem edges_sideRoom_le (unbound : bindings.text? "corridor" = none) :
    effort.edges bindings (sideRoom m).edges ≤ f (depth m.edge + 1) := by
  have way := edge_deeper_le paths bindings (number?_deeper m)
  have corridor : effort.edge ((Label.ofList [("type", .str "corridor")]).mapStrings bindings.text?) = 0 :=
    edge_corridor paths bindings rfl unbound
  simp only [sideRoom, edges_pair]
  omega

theorem edges_lockDoor (unbound : bindings.text? "corridor" = none) :
    effort.edges bindings (lockDoor settings text m).edges = 0 := by
  have corridor : effort.edge ((keyCorridor settings text m.src).mapStrings bindings.text?) = 0 :=
    edge_corridor paths bindings (string?_keyCorridor m.src) unbound
  have locked : effort.edge (((EdgeSpec.reemit m.edge).merged
      (.ofList [("state", .str "locked")])).label.mapStrings bindings.text?) = 0 := by
    rw [paths]
    apply onPaths_of_state
    rw [Label.contains_mapStrings, contains_locked]
  simp only [lockDoor, edges_pair, corridor, locked]

end

section

variable {site : Site} (effort : Effort)

theorem total_applyAt_graph {pattern : EdgePattern} {build : MatchedEdge → SubgraphSpec}
    (listed : site ∈ g.sites (.graph pattern (some ∘ build))) :
    ∃ m, Matches g pattern m ∧
      effort.total (g.applyAt (.graph pattern (some ∘ build)) site).2 + effort.edge m.edge.label ≤
        effort.total g + (effort.nodes (build m).nodes +
          effort.edges ((g.eraseEdge m.edge.id).addNodes (build m).nodes).1 (build m).edges) := by
  obtain ⟨m, matched, rfl⟩ := matches_of_site listed
  refine ⟨m, matched, ?_⟩
  have inserted := effort.total_insertSubgraph_le (g.eraseEdge m.edge.id) (build m)
  have erased := effort.total_eraseEdge matched.edge
  simp only [Graph.applyAt, matched.replaceEdge]
  omega

theorem total_applyAt_edge {pattern : EdgePattern} {update : Update}
    (listed : site ∈ g.sites (.edge pattern update)) :
    ∃ m, Matches g pattern m ∧
      effort.total (g.applyAt (.edge pattern update) site).2 + effort.edge m.edge.label =
        effort.total g + effort.edge (update.run m.edge.label) := by
  obtain ⟨m, matched, rfl⟩ := matches_of_site listed
  refine ⟨m, matched, ?_⟩
  simp only [Graph.applyAt, Graph.hasEdge_of_edge? matched.edge, if_true]
  exact effort.total_modifyEdgeLabel matched.edge update.run

theorem total_applyAt_node {condition : Condition Node} {update : Update}
    (listed : site ∈ g.sites (.node condition update)) :
    ∃ node : Node, condition.accepts node g = true ∧
      effort.total (g.applyAt (.node condition update) site).2 + effort.node node.label =
        effort.total g + effort.node (update.run node.label) := by
  obtain ⟨id, node, found, accepted, rfl⟩ := Graph.mem_sites_node.mp listed
  have here := Graph.node_id found
  subst here
  refine ⟨node, accepted, ?_⟩
  simp only [Graph.applyAt, Graph.hasNode_of_node? found, if_true]
  exact effort.total_modifyNodeLabel found update.run

end

def PathDepths (P : Number → Prop) (g : Graph) : Prop :=
  ∀ ⦃id edge⦄, g.edge? id = some edge → isUndecidedPath edge = true → P (depth edge)

variable {P : Number → Prop} {site : Site}

open Classical in
noncomputable def missing (P : Number → Prop) (x : Number) : Nat := if P x then 0 else 1

theorem missing_eq_zero_iff {x : Number} : missing P x = 0 ↔ P x := by
  simp [missing]

noncomputable def lacking (P : Number → Prop) : Effort := ⟨fun _ => 0, onPaths (missing P)⟩

theorem lacking_edge (P : Number → Prop) : (lacking P).edge = onPaths (missing P) := rfl

theorem total_lacking_eq_zero_iff : (lacking P).total g = 0 ↔ PathDepths P g := by
  have one (edge : Edge) : (lacking P).edge edge.label = 0 ↔
      (isUndecidedPath edge = true → P (depth edge)) := by
    rw [lacking_edge]
    cases undecided : isUndecidedPath edge with
    | true => simp [onPaths_of_undecided undecided, missing_eq_zero_iff]
    | false => simp [onPaths_of_decided undecided]
  rw [Effort.total_eq_zero_iff fun _ => rfl]
  simp only [one]
  rfl

theorem lacking_nodes (P : Number → Prop) (specs : List NodeSpec) : (lacking P).nodes specs = 0 := by
  refine List.sum_eq_zero_iff_forall_eq_nat.mpr fun _ listed => ?_
  obtain ⟨_, _, rfl⟩ := List.mem_map.mp listed
  rfl

inductive SplitsNone : RuleKind → Prop where
  | lock (settings : DungeonSettings) (text : TextGenerator) :
    SplitsNone (.graph undecided (some ∘ lockDoor settings text))
  | opened : SplitsNone (.edge undecided (.merge (.ofList [("state", .str "open")])))
  | node (condition : Condition Node) (update : Update) : SplitsNone (.node condition update)

namespace PathDepths

variable (depths : PathDepths P g)

include depths

theorem applyAt_graph {pattern : EdgePattern} {build : MatchedEdge → SubgraphSpec}
    (listed : site ∈ g.sites (.graph pattern (some ∘ build)))
    (none : ∀ m, Matches g pattern m →
      (lacking P).edges ((g.eraseEdge m.edge.id).addNodes (build m).nodes).1 (build m).edges ≤ 0) :
    PathDepths P (g.applyAt (.graph pattern (some ∘ build)) site).2 := by
  obtain ⟨m, matched, after⟩ := total_applyAt_graph (lacking P) listed
  have edges := none m matched
  rw [total_lacking_eq_zero_iff.mpr depths, lacking_nodes] at after
  exact total_lacking_eq_zero_iff.mp (by omega)

/-- Only the rules that split paths make undecided paths. -/
theorem applyAt_late {kind : RuleKind} (late : SplitsNone kind) (listed : site ∈ g.sites kind) :
    PathDepths P (g.applyAt kind site).2 := by
  have before := total_lacking_eq_zero_iff.mpr depths
  cases late with
  | lock settings text =>
    refine depths.applyAt_graph listed fun m _ => ?_
    exact Nat.le_of_eq (edges_lockDoor (lacking_edge P) _ rfl)
  | opened =>
    obtain ⟨m, _, after⟩ := total_applyAt_edge (lacking P) listed
    have opened : (lacking P).edge
        ((Update.merge (.ofList [("state", .str "open")])).run m.edge.label) = 0 :=
      onPaths_opened m.edge.label
    rw [before, opened] at after
    exact total_lacking_eq_zero_iff.mp (by omega)
  | node condition update =>
    obtain ⟨node, _, after⟩ := total_applyAt_node (lacking P) listed
    exact total_lacking_eq_zero_iff.mp (after.trans before)

theorem apply (next : ∀ {x}, P x → P (x + 1)) {set : CandidateSet} {c : Candidate}
    (found : g.candidates? (grammar settings text) = some set) (drawn : c ∈ set.candidates) :
    PathDepths P (g.apply c).2 := by
  obtain ⟨tier, inGrammar, inTier, site⟩ := Graph.mem_candidates? found drawn
  have deeper {m : MatchedEdge} {pattern : EdgePattern} (matched : Matches g pattern m)
      (undecided : isUndecidedPath m.edge = true) : missing P (depth m.edge + 1) = 0 :=
    missing_eq_zero_iff.mpr (next (depths matched.edge undecided))
  unfold Graph.apply
  rcases kind_cases inGrammar inTier with kind | kind | kind | kind | kind | kind | kind
  all_goals rw [kind] at site ⊢
  · refine depths.applyAt_graph site fun m matched => ?_
    have nothing := deeper matched (accepts_growable.mp matched.accepted).1
    refine Nat.le_trans (edges_insertChamber_le (lacking_edge P) _) ?_
    omega
  · refine depths.applyAt_graph site fun m matched => ?_
    have nothing := deeper matched (accepts_growable.mp matched.accepted).1
    refine Nat.le_trans (edges_forkPath_le (lacking_edge P) _) ?_
    omega
  · refine depths.applyAt_graph site fun m matched => ?_
    have nothing := deeper matched (accepts_growableOutside.mp matched.accepted).2.1
    refine Nat.le_trans (edges_sideRoom_le (lacking_edge P) _ rfl) ?_
    omega
  · exact depths.applyAt_late (.lock settings text) site
  · exact depths.applyAt_late .opened site
  · exact depths.applyAt_late (.node _ _) site
  · exact depths.applyAt_late (.node _ _) site

end PathDepths

end GraphGrammar.Dungeon
