import GraphGrammar.Proofs.Dungeon.Finished
import Mathlib.Algebra.Order.Field.Basic
import Mathlib.Algebra.Order.Field.Rat

/-!
The ways through a dungeon while it grows. No walk comes back to where it began, every path lies on a walk
of paths from the entrance to the goal, and side rooms and key rooms are dead ends. The first holds because
the rooms have ranks that every edge raises, with room for a new one between any two. The second holds
because what takes the place of a path leads from its source to its destination.
-/

namespace GraphGrammar.Dungeon

open GraphGrammar.Graph (SparesLast)
open GraphGrammar.RunState (follow)

/-- A directed walk over some of the given edges. Each of them begins where the one before it ends. -/
inductive Walk (edges : List Edge) : NodeId → List Edge → NodeId → Prop where
  | nil (n : NodeId) : Walk edges n [] n
  | cons {edge : Edge} {walk : List Edge} {n : NodeId} (listed : edge ∈ edges)
    (rest : Walk edges edge.dest walk n) : Walk edges edge.src (edge :: walk) n

def Linked (edges : List Edge) (a b : NodeId) : Prop := ∃ walk, Walk edges a walk b

def paths (edges : List Edge) : List Edge := edges.filter isPath

variable {edges others : List Edge} {a b c : NodeId} {walk further : List Edge} {edge : Edge}

theorem Walk.append (first : Walk edges a walk b) (rest : Walk edges b further c) :
    Walk edges a (walk ++ further) c := by
  induction first with
  | nil => exact rest
  | cons listed _ ih => exact .cons listed (ih rest)

theorem Linked.refl (edges : List Edge) (n : NodeId) : Linked edges n n := ⟨[], .nil n⟩

theorem Linked.trans (first : Linked edges a b) (rest : Linked edges b c) : Linked edges a c := by
  obtain ⟨walk, leads⟩ := first
  obtain ⟨further, leadsOn⟩ := rest
  exact ⟨walk ++ further, leads.append leadsOn⟩

theorem Linked.of_mem (listed : edge ∈ edges) : Linked edges edge.src edge.dest :=
  ⟨[edge], .cons listed (.nil edge.dest)⟩

theorem Linked.rebuild (linked : Linked edges a b)
    (along : ∀ edge ∈ edges, Linked others edge.src edge.dest) : Linked others a b := by
  obtain ⟨walk, leads⟩ := linked
  induction leads with
  | nil n => exact .refl others n
  | cons listed _ ih => exact (along _ listed).trans ih

theorem mem_paths : edge ∈ paths edges ↔ edge ∈ edges ∧ isPath edge = true := List.mem_filter

def Rises (rank : NodeId → ℚ) (edges : List Edge) : Prop :=
  ∀ edge ∈ edges, rank edge.src < rank edge.dest

theorem Rises.rank_le {rank : NodeId → ℚ} (rises : Rises rank edges) (leads : Walk edges a walk b) :
    rank a ≤ rank b := by
  induction leads with
  | nil => exact le_refl _
  | cons listed _ ih => exact (rises _ listed).le.trans ih

/-- Where every edge raises the rank, no walk comes back. -/
theorem Rises.eq_nil_of_closed {rank : NodeId → ℚ} (rises : Rises rank edges)
    (closed : Walk edges a walk a) : walk = [] := by
  cases closed with
  | nil => rfl
  | cons listed rest => exact absurd (rises.rank_le rest) (not_le.mpr (rises _ listed))

/-- What takes the place of a path leads from its source to its destination, and so does each new path. -/
structure Bridges (path : Edge) (edges : List Edge) : Prop where
  across : Linked (paths edges) path.src path.dest
  onto : ∀ way ∈ paths edges, Linked (paths edges) path.src way.src
  off : ∀ way ∈ paths edges, Linked (paths edges) way.dest path.dest

/-- New edges run from the source of a path to its destination, or one of the ends is a new room. -/
def Spans (path : Edge) (nodes : List Node) (edges : List Edge) : Prop :=
  ∀ edge ∈ edges, edge.src = path.src ∧ edge.dest = path.dest ∨
    ∃ node ∈ nodes, edge.src = path.src ∧ edge.dest = node.id ∨
      edge.src = node.id ∧ edge.dest = path.dest

theorem bridges_of_parallel {path way : Edge} (listed : way ∈ edges) (isWay : isPath way = true)
    (parallel : ∀ e ∈ edges, isPath e = true → e.src = path.src ∧ e.dest = path.dest) :
    Bridges path edges where
  across := by
    obtain ⟨src, dest⟩ := parallel way listed isWay
    rw [← src, ← dest]
    exact .of_mem (mem_paths.mpr ⟨listed, isWay⟩)
  onto e member := by
    obtain ⟨there, isWay⟩ := mem_paths.mp member
    rw [(parallel e there isWay).1]
    exact .refl _ _
  off e member := by
    obtain ⟨there, isWay⟩ := mem_paths.mp member
    rw [(parallel e there isWay).2]
    exact .refl _ _

section

variable {settings : DungeonSettings} {text : TextGenerator} {m : MatchedEdge} {n : NodeId}
  {k k' : EdgeId} {nodes : List Node}

theorem isPath_of_type (type : edge.label.string? "type" = some "path") : isPath edge = true := by
  rw [isPath, type]
  rfl

theorem not_isPath_of_corridor (type : edge.label.string? "type" = some "corridor") :
    isPath edge ≠ true := by
  rw [isPath, type]
  decide

theorem isPath_deeper (type : m.edge.label.string? "type" = some "path") {bindings : Bindings}
    (unbound : bindings.text? "path" = none) (id : EdgeId) (src dest : NodeId) :
    isPath ((deeper m).bound bindings id src dest) = true :=
  isPath_of_type (type_merged type (by decide) unbound)

theorem Production.bridges (production : Production settings text m n k k' nodes edges)
    (type : m.edge.label.string? "type" = some "path") : Bridges m.edge edges := by
  cases production with
  | chamber =>
    let entering : Edge := ⟨k, m.edge.src, n, path (depth m.edge + 1), none⟩
    let leaving : Edge := ⟨k', n, m.edge.dest, path (depth m.edge + 1), none⟩
    have isPaths : paths [entering, leaving] = [entering, leaving] := rfl
    have into : Linked [entering, leaving] m.edge.src n := .of_mem (.head _)
    have outOf : Linked [entering, leaving] n m.edge.dest := .of_mem (.tail _ (.head _))
    constructor
    all_goals rw [isPaths]
    · exact into.trans outOf
    · exact List.forall_mem_cons.mpr ⟨.refl _ _, List.forall_mem_singleton.mpr into⟩
    · exact List.forall_mem_cons.mpr ⟨outOf, List.forall_mem_singleton.mpr (.refl _ _)⟩
  | fork =>
    refine bridges_of_parallel (.head _) (isPath_deeper type rfl ..) ?_
    exact List.forall_mem_cons.mpr ⟨fun _ => ⟨rfl, rfl⟩,
      List.forall_mem_singleton.mpr fun _ => ⟨rfl, rfl⟩⟩
  | side =>
    refine bridges_of_parallel (.head _) (isPath_deeper type rfl ..) ?_
    exact List.forall_mem_cons.mpr ⟨fun _ => ⟨rfl, rfl⟩, List.forall_mem_singleton.mpr fun corridor =>
      absurd corridor (not_isPath_of_corridor rfl)⟩
  | lock =>
    have corridorType : ((keyCorridor settings text m.src).mapStrings
        (Bindings.text? [("$key", n)])).string? "type" = some "corridor" := by
      rw [Label.string?_mapStrings, string?_keyCorridor]
      rfl
    refine bridges_of_parallel (.tail _ (.head _))
      (isPath_of_type (type_merged type (by decide) rfl)) ?_
    exact List.forall_mem_cons.mpr ⟨fun corridor => absurd corridor (not_isPath_of_corridor corridorType),
      List.forall_mem_singleton.mpr fun _ => ⟨rfl, rfl⟩⟩
  | opened =>
    refine bridges_of_parallel (.head _)
      (isPath_of_type ((Label.string?_merge_of_ne _ _ (by decide)).trans type)) ?_
    exact List.forall_mem_singleton.mpr fun _ => ⟨rfl, rfl⟩

theorem Production.spans (production : Production settings text m n k k' nodes edges) :
    Spans m.edge nodes edges := by
  cases production with
  | chamber =>
    exact List.forall_mem_cons.mpr ⟨.inr ⟨_, .head _, .inl ⟨rfl, rfl⟩⟩,
      List.forall_mem_singleton.mpr (.inr ⟨_, .head _, .inr ⟨rfl, rfl⟩⟩)⟩
  | fork =>
    exact List.forall_mem_cons.mpr ⟨.inl ⟨rfl, rfl⟩, List.forall_mem_singleton.mpr (.inl ⟨rfl, rfl⟩)⟩
  | side =>
    exact List.forall_mem_cons.mpr ⟨.inl ⟨rfl, rfl⟩,
      List.forall_mem_singleton.mpr (.inr ⟨_, .head _, .inl ⟨rfl, rfl⟩⟩)⟩
  | lock =>
    exact List.forall_mem_cons.mpr ⟨.inr ⟨_, .head _, .inl ⟨rfl, rfl⟩⟩,
      List.forall_mem_singleton.mpr (.inl ⟨rfl, rfl⟩)⟩
  | opened => exact List.forall_mem_singleton.mpr (.inl ⟨rfl, rfl⟩)

end

section

variable {g h : Graph} {path : Edge} {nodes : List Node}

theorem Replaced.mem_edges_cases (replaced : Replaced g path nodes edges h) (listed : edge ∈ h.edges) :
    edge ∈ g.edges ∨ edge ∈ edges := by
  obtain ⟨id, found⟩ := Graph.mem_edges_iff.mp listed
  rcases replaced.edge_cases found with old | ⟨new, _⟩
  · exact .inl (Graph.mem_edges_iff.mpr ⟨id, old⟩)
  · exact .inr new

theorem Replaced.mem_paths_of_new (replaced : Replaced g path nodes edges h)
    (new : edge ∈ paths edges) : edge ∈ paths h.edges := by
  obtain ⟨member, isWay⟩ := mem_paths.mp new
  exact mem_paths.mpr ⟨Graph.mem_edges_iff.mpr ⟨edge.id, replaced.adds.new_edge member⟩, isWay⟩

theorem Replaced.linked_of_new (replaced : Replaced g path nodes edges h)
    (linked : Linked (paths edges) a b) : Linked (paths h.edges) a b :=
  linked.rebuild fun _ new => .of_mem (replaced.mem_paths_of_new new)

theorem Replaced.linked (replaced : Replaced g path nodes edges h) (bridges : Bridges path edges)
    (linked : Linked (paths g.edges) a b) : Linked (paths h.edges) a b := by
  refine linked.rebuild fun way listed => ?_
  obtain ⟨there, isWay⟩ := mem_paths.mp listed
  by_cases same : way = path
  · rw [same]
    exact replaced.linked_of_new bridges.across
  · obtain ⟨id, found⟩ := Graph.mem_edges_iff.mp there
    have kept : way ∈ h.edges := Graph.mem_edges_iff.mpr ⟨id, replaced.kept found same⟩
    exact .of_mem (mem_paths.mpr ⟨kept, isWay⟩)

theorem Replaced.rises (replaced : Replaced g path nodes edges h)
    (spans : Spans path nodes edges) {rank : NodeId → ℚ} (rises : Rises rank g.edges) :
    ∃ rank', Rises rank' h.edges := by
  have here : path ∈ g.edges := Graph.mem_edges_iff.mpr ⟨path.id, replaced.found⟩
  -- Ranks are fractions, so that there is one between any two.
  obtain ⟨between, above, below⟩ := exists_between (rises path here)
  let rank' : NodeId → ℚ := fun n => if n ∈ nodes.map Node.id then between else rank n
  have new {node : Node} (member : node ∈ nodes) : rank' node.id = between :=
    if_pos (List.mem_map_of_mem member)
  have old {k : EdgeId} {edge : Edge} (found : g.edge? k = some edge) :
      rank' edge.src = rank edge.src ∧ rank' edge.dest = rank edge.dest := by
    constructor
    · refine if_neg fun member => ?_
      obtain ⟨node, fresh, same⟩ := List.mem_map.mp member
      exact (replaced.apart found fresh).1 same.symm
    · refine if_neg fun member => ?_
      obtain ⟨node, fresh, same⟩ := List.mem_map.mp member
      exact (replaced.apart found fresh).2 same.symm
  obtain ⟨src, dest⟩ := old replaced.found
  refine ⟨rank', fun edge listed => ?_⟩
  rcases replaced.mem_edges_cases listed with before | member
  · obtain ⟨id, found⟩ := Graph.mem_edges_iff.mp before
    obtain ⟨srcOld, destOld⟩ := old found
    rw [srcOld, destOld]
    exact rises edge before
  · rcases spans edge member with ⟨srcSame, destSame⟩ |
      ⟨node, fresh, ⟨srcSame, destSame⟩ | ⟨srcSame, destSame⟩⟩
    · rw [srcSame, destSame, src, dest]
      exact rises path here
    · rw [srcSame, destSame, src, new fresh]
      exact above
    · rw [srcSame, destSame, dest, new fresh]
      exact below

end

structure Growing (g : Graph) : Prop where
  sound : g.Sound
  layout : Layout g
  rises : ∃ rank, Rises rank g.edges
  linked : ∀ way ∈ paths g.edges,
    Linked (paths g.edges) entrance way.src ∧ Linked (paths g.edges) way.dest goal

variable {settings : DungeonSettings} {text : TextGenerator} {g h : Graph}

theorem growing_seedGraph : Growing seedGraph where
  sound := sound_seedGraph
  layout := layout_seedGraph
  rises := by
    refine ⟨fun n => if n = goal then 1 else 0, fun edge listed => ?_⟩
    obtain ⟨id, found⟩ := Graph.mem_edges_iff.mp listed
    rw [found_edge_seedGraph found]
    simp [entrance, goal]
  linked way listed := by
    obtain ⟨id, found⟩ := Graph.mem_edges_iff.mp (mem_paths.mp listed).1
    rw [found_edge_seedGraph found]
    exact ⟨.refl _ _, .refl _ _⟩

theorem Growing.next (growing : Growing g) (step : Step settings text g h) : Growing h := by
  obtain ⟨sound, layout, ⟨rank, rises⟩, linked⟩ := growing
  cases step with
  | @replace m nodes edges _ production replaced =>
    have type := (isUndecidedPath_iff.mp replaced.undecided).1
    have here : m.edge ∈ paths g.edges :=
      mem_paths.mpr ⟨Graph.mem_edges_iff.mpr ⟨m.edge.id, replaced.found⟩, isPath_of_type type⟩
    have fitting := production.fitting replaced.undecided fun node new =>
      (replaced.apart replaced.found new).2
    have bridges := production.bridges type
    refine ⟨replaced.sound, layout.replace replaced fitting,
      replaced.rises production.spans rises, fun way listed => ?_⟩
    obtain ⟨there, isWay⟩ := mem_paths.mp listed
    rcases replaced.mem_edges_cases there with old | new
    · obtain ⟨before, after⟩ := linked way (mem_paths.mpr ⟨old, isWay⟩)
      exact ⟨replaced.linked bridges before, replaced.linked bridges after⟩
    · -- One comes to the new path by the walk that led to the old one, and goes on likewise.
      have member : way ∈ paths edges := mem_paths.mpr ⟨new, isWay⟩
      obtain ⟨before, after⟩ := linked m.edge here
      exact ⟨(replaced.linked bridges before).trans (replaced.linked_of_new (bridges.onto way member)),
        (replaced.linked_of_new (bridges.off way member)).trans (replaced.linked bridges after)⟩
  | furnish found furnishing =>
    exact ⟨sound.modifyNodeLabel _ _, layout.modifyNodeLabel found furnishing.role, ⟨rank, rises⟩, linked⟩

theorem Growing.step {s : RunState} (growing : Growing s.graph)
    (spared : SparesLast (s.step (grammar settings text)).1.change.addedNodes
      (s.step (grammar settings text)).1.change.addedEdges) :
    Growing (s.step (grammar settings text)).2.graph := by
  rcases RunState.step_cases (grammar settings text) s with
    ⟨_, same⟩ | ⟨set, c, found, drawn, outcome, graph⟩
  · rw [same]
    exact growing
  · rw [outcome] at spared
    rw [graph]
    exact growing.next (step_of_candidate growing.sound found drawn spared).1

theorem Growing.follow {texts : List TextGenerator} {s : RunState} (growing : Growing s.graph)
    (spared : StepOutcome.SpareLast (follow (texts.map (grammar settings)) s).1) :
    Growing (follow (texts.map (grammar settings)) s).2.graph := by
  refine RunState.follow_invariant (fun _ member s spared growing => ?_) spared growing
  obtain ⟨text, _, rfl⟩ := List.mem_map.mp member
  exact growing.step spared

/-- Whatever the depth, the draws and the answers of the text generator at each step, a growing dungeon has
no cycle, each of its paths lies on a walk of paths from the entrance to the goal, and its side rooms and
key rooms are dead ends at the end of one corridor. Only a dungeon that is deeper than 60 can use up the
ids, not before `2 ^ 63 - 1` steps, and there they must not run out. -/
theorem growing_dungeon_ways (settings : DungeonSettings) (texts : List TextGenerator)
    (generator : Generator)
    (spared : 60 < settings.maxDepth.toNat → 2 ^ 63 - 1 ≤ texts.length → StepOutcome.SpareLast
      (follow (texts.map (grammar settings)) ⟨seedGraph, generator⟩).1) :
    let g := (follow (texts.map (grammar settings)) ⟨seedGraph, generator⟩).2.graph
    (∀ n walk, Walk g.edges n walk n → walk = []) ∧
      (∀ way ∈ g.edges, isPath way = true →
        ∃ walk, Walk (paths g.edges) entrance walk goal ∧ way ∈ walk) ∧
      ∀ room ∈ g.nodes, IsAlcove room.label → ∃ id corridor, DeadEnd g room.id id corridor := by
  intro g
  have growing : Growing g := Growing.follow (s := ⟨seedGraph, generator⟩) growing_seedGraph
    (spareLast_of_deep texts generator spared)
  obtain ⟨sound, layout, ⟨rank, rises⟩, linked⟩ := growing
  refine ⟨fun n walk closed => rises.eq_nil_of_closed closed, fun way listed isWay => ?_,
    fun room listed alcove => ?_⟩
  · have member : way ∈ paths g.edges := mem_paths.mpr ⟨listed, isWay⟩
    obtain ⟨⟨before, leads⟩, ⟨after, leadsOn⟩⟩ := linked way member
    exact ⟨before ++ way :: after, leads.append (.cons member leadsOn), by simp⟩
  · obtain ⟨id, found⟩ := Graph.mem_nodes_iff.mp listed
    have here := Graph.node_id found
    subst here
    exact layout.deadEnd found alcove

/-- A dungeon with a side room, and with a key room beside a locked path, in which every other step comes
without a description. -/
theorem growing_dungeon_ways_with_lock :
    let texts := (List.replicate 4 [TextGenerator.tagged, .silent]).flatten
    let run := follow (texts.map (grammar { maxDepth := 1 })) ⟨seedGraph, .ofSeed 3⟩
    let g := run.2.graph
    (StepOutcome.SpareLast run.1 ∧ g.edges.any isLocked = true ∧
      g.nodes.any (fun room => IsAlcove room.label) = true) ∧
    (∀ n walk, Walk g.edges n walk n → walk = []) ∧
      (∀ way ∈ g.edges, isPath way = true →
        ∃ walk, Walk (paths g.edges) entrance walk goal ∧ way ∈ walk) ∧
      ∀ room ∈ g.nodes, IsAlcove room.label → ∃ id corridor, DeadEnd g room.id id corridor := by
  have spared : StepOutcome.SpareLast (follow (List.map (grammar { maxDepth := 1 })
      (List.replicate 4 [TextGenerator.tagged, .silent]).flatten) ⟨seedGraph, .ofSeed 3⟩).1 :=
    spareLast_of_length (.ofSeed 3) (by decide)
  exact ⟨⟨spared, by decide +kernel⟩, growing_dungeon_ways { maxDepth := 1 } _ (.ofSeed 3) fun _ _ => spared⟩

end GraphGrammar.Dungeon
