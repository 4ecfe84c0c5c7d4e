import GraphGrammar.Proofs.Dungeon.Effort
import GraphGrammar.Proofs.Dungeon.Layout

/-!
What a dungeon looks like when nothing is left to be done. Every path has the greatest depth and is open
or locked, every lock has its key room, and every room is furnished. While the dungeon grows, each room
and each edge has one of a few forms, and each step keeps to them; where no rule matches, only the last
of these forms are left.
-/

namespace GraphGrammar.Dungeon

open GraphGrammar.Graph (SparesLast)

def description? (settings : DungeonSettings) (text : TextGenerator) (label : Label) : Option Value :=
  (text.rephrase settings.style (roomTemplate (label.string? "role"))).toOption.map .str

structure Room (settings : DungeonSettings) (text : TextGenerator) (label : Label) : Prop where
  type : label.string? "type" = some "room"
  loot : label.contains "loot" = true → label.string? "role" = some "side"
  described : label.contains "described" = false ∧ label.get? "description" = none ∨
    label.get? "described" = some (.bool true) ∧
      label.get? "description" = description? settings text label

inductive Passage (maxDepth : UInt32) (edge : Edge) : Prop where
  | undecided {k : Nat} (type : edge.label.string? "type" = some "path")
    (depth : edge.label.number? "depth" = some (.ofNat k)) (within : k ≤ maxDepth.toNat)
    (stateless : edge.label.contains "state" = false) (free : edge.prereq = none)
  | opened (type : edge.label.string? "type" = some "path")
    (depth : edge.label.number? "depth" = some (.ofNat maxDepth.toNat))
    (state : edge.label.string? "state" = some "open") (free : edge.prereq = none)
  | locked (type : edge.label.string? "type" = some "path")
    (depth : edge.label.number? "depth" = some (.ofNat maxDepth.toNat)) (state : isLocked edge = true)
  | corridor (type : edge.label.string? "type" = some "corridor")
    (stateless : edge.label.contains "state" = false)

structure Unfinished (settings : DungeonSettings) (text : TextGenerator) (g : Graph) : Prop where
  sound : g.Sound
  room : ∀ {id node}, g.node? id = some node → Room settings text node.label
  passage : ∀ {id edge}, g.edge? id = some edge → Passage settings.maxDepth edge
  layout : Layout g

variable {settings : DungeonSettings} {text : TextGenerator} {g h : Graph}

theorem room_new (role : String) : Room settings text (room role) where
  type := rfl
  loot loot := nomatch loot
  described := .inl ⟨rfl, rfl⟩

theorem Room.stocked {label : Label} (old : Room settings text label)
    (side : label.string? "role" = some "side") :
    Room settings text (label.merge (.ofList [("loot", chest.toValue)])) := by
  have role : (label.merge (.ofList [("loot", chest.toValue)])).string? "role" =
      label.string? "role" := Label.string?_merge_of_ne label _ (by decide)
  have read (key : String) (other : "loot" ≠ key) :
      (label.merge (.ofList [("loot", chest.toValue)])).get? key = label.get? key := by
    rw [Label.get?_merge_single, if_neg other]
  constructor
  · exact (Label.string?_merge_of_ne label _ (by decide)).trans old.type
  · intro _
    exact role.trans side
  · rw [Label.contains, description?, role, read _ (by decide), read _ (by decide)]
    exact old.described

theorem Room.describe {label : Label} (old : Room settings text label)
    (undescribed : label.contains "described" = false) :
    Room settings text (describeRoom settings text label) := by
  have read (key : String) (other : "description" ≠ key) (apart : "described" ≠ key) :
      (describeRoom settings text label).get? key = label.get? key :=
    get?_describeRoom label other apart
  have role : (describeRoom settings text label).string? "role" = label.string? "role" := by
    rw [Label.string?, read _ (by decide) (by decide)]
    rfl
  have silent : label.get? "description" = none := by
    rcases old.described with ⟨_, nothing⟩ | ⟨described, _⟩
    · exact nothing
    · rw [Label.contains, described] at undescribed
      cases undescribed
  constructor
  · rw [Label.string?, read _ (by decide) (by decide)]
    exact old.type
  · rw [role, Label.contains, read _ (by decide) (by decide)]
    exact old.loot
  · refine .inr ⟨?_, ?_⟩
    · exact (Label.get?_insert ..).trans (if_pos rfl)
    · rw [description?, role, describeRoom, Label.get?_insert, if_neg (by decide)]
      unfold Dungeon.describe
      cases text.rephrase settings.style (roomTemplate (label.string? "role")) with
      | ok line => exact (Label.get?_insert ..).trans (if_pos rfl)
      | error _ => exact silent

theorem Furnishing.room {label written : Label} (furnishing : Furnishing settings text label written)
    (old : Room settings text label) : Room settings text written := by
  cases furnishing with
  | stocked side => exact old.stocked side
  | described undescribed => exact old.describe undescribed

theorem Furnishing.role {label written : Label} (furnishing : Furnishing settings text label written) :
    written.string? "role" = label.string? "role" := by
  cases furnishing with
  | stocked => exact Label.string?_merge_of_ne label _ (by decide)
  | described =>
    rw [Label.string?, get?_describeRoom label (by decide) (by decide)]
    rfl

section

variable {m : MatchedEdge} {n : NodeId} {k k' : EdgeId} {nodes : List Node} {edges : List Edge}

theorem Passage.of_undecided {maxDepth : UInt32} {edge : Edge} (passage : Passage maxDepth edge)
    (undecided : isUndecidedPath edge = true) :
    edge.label.string? "type" = some "path" ∧ edge.label.contains "state" = false ∧
      edge.prereq = none ∧ ∃ d ≤ maxDepth.toNat, edge.label.number? "depth" = some (.ofNat d) ∧
        depth edge = .ofNat d := by
  obtain ⟨isPath, undecided⟩ := isUndecidedPath_iff.mp undecided
  cases passage with
  | @undecided d type depth within stateless free =>
    exact ⟨type, stateless, free, d, within, depth, congrArg (Option.getD · 0) depth⟩
  | opened _ _ state _ =>
    rw [Label.string?_eq_none undecided] at state
    cases state
  | locked _ _ state =>
    rw [isLocked_eq_false undecided] at state
    cases state
  | corridor type _ =>
    rw [isPath] at type
    exact absurd (Option.some.inj type) (by decide)

theorem maxDepth_le_lastWhole (maxDepth : UInt32) : maxDepth.toNat ≤ Number.lastWhole :=
  Nat.le_of_lt (Nat.lt_trans maxDepth.toNat_lt (by decide))

theorem next_depth {maxDepth : UInt32} {d : Nat} (within : d ≤ maxDepth.toNat)
    (shallow : Number.ofNat d < .ofNat maxDepth.toNat) :
    Number.ofNat d + 1 = .ofNat (d + 1) ∧ d + 1 ≤ maxDepth.toNat := by
  have last := maxDepth_le_lastWhole maxDepth
  have less := (Number.ofNat_lt_iff (Nat.le_trans within last) last).mp shallow
  exact ⟨Number.ofNat_add_one (Nat.lt_of_lt_of_le less last), less⟩

theorem depth_of_deep {maxDepth : UInt32} {d : Nat} (within : d ≤ maxDepth.toNat)
    (deep : ¬Number.ofNat d < .ofNat maxDepth.toNat) : d = maxDepth.toNat := by
  have last := maxDepth_le_lastWhole maxDepth
  rw [Number.ofNat_lt_iff (Nat.le_trans within last) last] at deep
  omega

theorem passage_deeper {maxDepth : UInt32} (old : Passage maxDepth m.edge)
    (undecided : isUndecidedPath m.edge = true) (shallow : depth m.edge < .ofNat maxDepth.toNat)
    {bindings : Bindings} (unbound : bindings.text? "path" = none) (id : EdgeId) (src dest : NodeId) :
    Passage maxDepth ((deeper m).bound bindings id src dest) := by
  obtain ⟨type, stateless, free, d, within, _, value⟩ := old.of_undecided undecided
  rw [value] at shallow
  obtain ⟨next, within'⟩ := next_depth within shallow
  refine .undecided ?_ ?_ within' ?_ ?_
  · exact type_merged type (by decide) unbound
  · have read := (Label.number?_mapStrings bindings.text? _ "depth").trans (number?_deeper m)
    rw [value, next] at read
    exact read
  · exact (Label.contains_mapStrings ..).trans (stateless_deeper stateless)
  · exact congrArg (Option.map _) free

theorem Production.passage (production : Production settings text m n k k' nodes edges)
    (old : Passage settings.maxDepth m.edge) (undecided : isUndecidedPath m.edge = true) :
    ∀ e ∈ edges, Passage settings.maxDepth e := by
  obtain ⟨type, stateless, free, d, within, depth, value⟩ := old.of_undecided undecided
  cases production with
  | chamber shallow =>
    rw [value] at shallow ⊢
    obtain ⟨next, within'⟩ := next_depth within shallow
    have way (id : EdgeId) (src dest : NodeId) :
        Passage settings.maxDepth ⟨id, src, dest, path (.ofNat d + 1), none⟩ :=
      .undecided rfl (congrArg some next) within' (stateless_path _) rfl
    exact List.forall_mem_cons.mpr ⟨way .., List.forall_mem_singleton.mpr (way ..)⟩
  | fork shallow =>
    have way (id : EdgeId) :
        Passage settings.maxDepth ((deeper m).bound [] id m.edge.src m.edge.dest) :=
      passage_deeper old undecided shallow rfl ..
    exact List.forall_mem_cons.mpr ⟨way _, List.forall_mem_singleton.mpr (way _)⟩
  | side shallow =>
    have way : Passage settings.maxDepth
        ((deeper m).bound [("$side", n)] k m.edge.src m.edge.dest) :=
      passage_deeper old undecided shallow rfl ..
    exact List.forall_mem_cons.mpr ⟨way, List.forall_mem_singleton.mpr (.corridor rfl rfl)⟩
  | lock deep =>
    rw [value] at deep
    cases depth_of_deep within deep
    refine List.forall_mem_cons.mpr ⟨.corridor ?_ ?_, List.forall_mem_singleton.mpr (.locked ?_ ?_ ?_)⟩
    · rw [Label.string?_mapStrings, string?_keyCorridor]
      rfl
    · exact (Label.contains_mapStrings ..).trans (stateless_keyCorridor m.src)
    · exact type_merged type (by decide) rfl
    · rw [Label.number?_mapStrings, Label.number?_merge_of_ne _ _ (by decide)]
      exact depth
    · rw [isLocked, Label.string?_mapStrings, Label.string?_merge_self]
      rfl
  | opened deep =>
    rw [value] at deep
    cases depth_of_deep within deep
    refine List.forall_mem_singleton.mpr (.opened ?_ ?_ ?_ free)
    · exact (Label.string?_merge_of_ne _ _ (by decide)).trans type
    · exact (Label.number?_merge_of_ne _ _ (by decide)).trans depth
    · exact Label.string?_merge_self ..

theorem Production.room (production : Production settings text m n k k' nodes edges) :
    ∀ node ∈ nodes, Room settings text node.label := by
  cases production with
  | chamber | side | lock => exact List.forall_mem_singleton.mpr (room_new _)
  | fork | opened =>
    intro node none
    cases none

end

theorem unfinished_seedGraph : Unfinished settings text seedGraph where
  sound := sound_seedGraph
  room found := by
    have new := (found_node_seedGraph found).1
    simp only [List.mem_cons, List.not_mem_nil, or_false] at new
    rcases new with rfl | rfl
    · exact room_new _
    · exact room_new _
  passage found := by
    rw [found_edge_seedGraph found]
    exact .undecided rfl rfl (Nat.zero_le _) (stateless_path 0) rfl
  layout := layout_seedGraph

theorem Unfinished.next (unfinished : Unfinished settings text g) (step : Step settings text g h) :
    Unfinished settings text h := by
  obtain ⟨sound, room, passage, layout⟩ := unfinished
  cases step with
  | replace production replaced =>
    have fitting := production.fitting replaced.undecided fun node new =>
      (replaced.apart replaced.found new).2
    refine ⟨replaced.sound, fun found => ?_, fun found => ?_, layout.replace replaced fitting⟩
    · rcases replaced.node_cases found with old | ⟨new, _⟩
      · exact room old
      · exact production.room _ new
    · rcases replaced.edge_cases found with old | ⟨new, _⟩
      · exact passage old
      · exact production.passage (passage replaced.found) replaced.undecided _ new
  | @furnish id node f there furnishing =>
    refine ⟨sound.modifyNodeLabel _ _, fun found => ?_, fun found => passage found,
      layout.modifyNodeLabel there furnishing.role⟩
    rw [Graph.node?_modifyNodeLabel] at found
    split at found
    · next same =>
      subst same
      rw [there] at found
      cases found
      exact furnishing.room (room there)
    · exact room found

theorem Unfinished.step {s : RunState} (unfinished : Unfinished settings text s.graph)
    (spared : SparesLast (s.step (grammar settings text)).1.change.addedNodes
      (s.step (grammar settings text)).1.change.addedEdges) :
    Unfinished settings text (s.step (grammar settings text)).2.graph ∧
      (s.step (grammar settings text)).1.change.droppedEdges = 0 := by
  rcases RunState.step_cases (grammar settings text) s with
    ⟨outcome, same⟩ | ⟨set, c, found, drawn, outcome, graph⟩
  · rw [outcome, same]
    exact ⟨unfinished, rfl⟩
  · rw [outcome] at spared ⊢
    rw [graph]
    obtain ⟨step, dropped⟩ := step_of_candidate unfinished.sound found drawn spared
    exact ⟨unfinished.next step, dropped⟩

theorem Unfinished.run (budget : Nat) {s : RunState} (unfinished : Unfinished settings text s.graph)
    (spared : SparesLast (Applied.nodes (RunState.changes (grammar settings text) budget s))
      (Applied.edges (RunState.changes (grammar settings text) budget s))) :
    Unfinished settings text (RunState.run (grammar settings text) budget s).2.graph ∧
      ∀ change ∈ RunState.changes (grammar settings text) budget s, change.droppedEdges = 0 := by
  revert unfinished spared
  refine RunState.runAfter_induction (grammar settings text) (I := fun changes s t =>
    Unfinished settings text s.graph → SparesLast (Applied.nodes changes) (Applied.edges changes) →
      Unfinished settings text t.graph ∧ ∀ change ∈ changes, change.droppedEdges = 0)
    ?_ ?_ ?_ 0 budget s
  · intro s unfinished _
    exact ⟨unfinished, by simp⟩
  · intro s outcome unfinished spared
    have once := unfinished.step
    rw [outcome] at once
    exact ⟨(once spared).1, by simp⟩
  · intro s changes t rest unfinished spared
    obtain ⟨now, later⟩ := Graph.sparesLast_append.mp spared
    obtain ⟨next, dropped⟩ := unfinished.step now
    obtain ⟨last, others⟩ := rest next later
    exact ⟨last, List.forall_mem_cons.mpr ⟨dropped, others⟩⟩

/-- What a dungeon looks like in the end. -/
structure Finished (settings : DungeonSettings) (text : TextGenerator) (g : Graph) : Prop where
  /-- Every path has the greatest depth, and it is open, or locked with its key in a room. -/
  path : ∀ {id edge}, g.edge? id = some edge → isPath edge = true →
    edge.label.number? "depth" = some (.ofNat settings.maxDepth.toNat) ∧
      (edge.label.string? "state" = some "open" ∧ edge.prereq = none ∨
        isLocked edge = true ∧ ∃ key, Names edge key ∧ role? g key = some "key")
  /-- A lock has one key room. -/
  lock : ∀ {id door}, g.edge? id = some door → isLocked door = true → ∃ key,
    (role? g key = some "key" ∧ OpenedBy door key) ∧ ∀ other, Names door other → other = key
  /-- A key room has one lock, and the only way to it is a corridor that begins where the door does. -/
  key : ∀ {key}, role? g key = some "key" → ∃ id door k corridor,
    (g.edge? id = some door ∧ OpenedBy door key) ∧
      (∀ {id' door'}, g.edge? id' = some door' → OpenedBy door' key → id' = id) ∧
      DeadEnd g key k corridor ∧ corridor.src = door.src
  room : ∀ {id node}, g.node? id = some node → node.label.string? "type" = some "room" ∧
    (node.label.contains "loot" = true ↔ node.label.string? "role" = some "side") ∧
    node.label.get? "described" = some (.bool true) ∧
    node.label.get? "description" = description? settings text node.label

theorem Unfinished.finished (unfinished : Unfinished settings text g)
    (exhausted : g.candidates? (grammar settings text) = none) : Finished settings text g := by
  obtain ⟨_, room, passage, layout⟩ := unfinished
  -- No rule matches, and each form but the last ones is one that some rule matches.
  have nowhere {tier : Tier} (inGrammar : tier ∈
      [growTier settings, lockTier settings text, furnishTier settings text]) {rule : Rule}
      (inTier : rule ∈ tier.rules) {site : Site} : site ∉ g.sites rule.kind := by
    rw [Graph.sites_eq_nil exhausted inGrammar inTier]
    exact List.not_mem_nil
  have decided {id edge} (found : g.edge? id = some edge) : isUndecidedPath edge = false := by
    apply Bool.eq_false_iff.mpr
    intro undecided
    have site := site_of_edge found fun _ _ => accepts_undecided.mpr undecided
    exact nowhere (.tail _ (.head _)) (.tail _ (.head _)) site
  have stocked {id node} (found : g.node? id = some node)
      (side : node.label.string? "role" = some "side") : node.label.contains "loot" = true := by
    cases loot : node.label.contains "loot" with
    | true => rfl
    | false =>
      have accepted : unstocked.accepts node g = true := accepts_unstocked.mpr ⟨side, loot⟩
      exact (nowhere (.tail _ (.tail _ (.head _))) (.head _)
        (Graph.mem_sites_node.mpr ⟨id, node, found, accepted, rfl⟩)).elim
  constructor
  · intro id edge found isPath
    have isDecided := decided found
    cases passage found with
    | undecided type _ _ stateless _ =>
      simp [isUndecidedPath, isPath, stateless] at isDecided
    | opened _ depth state free => exact ⟨depth, .inl ⟨state, free⟩⟩
    | locked _ depth state => exact ⟨depth, .inr ⟨state, layout.key found state⟩⟩
    | corridor type _ => simp [Dungeon.isPath, type] at isPath
  · intro id door found locked
    obtain ⟨key, names, role⟩ := layout.key found locked
    exact ⟨key, ⟨role, locked, names⟩, fun other named => named.unique names⟩
  · intro key role
    obtain ⟨node, there, isKey⟩ := role?_eq_some_iff.mp role
    obtain ⟨id, door, found, opened, beside⟩ := layout.door role
    obtain ⟨k, corridor, deadEnd⟩ := layout.deadEnd there (.inr isKey)
    exact ⟨id, door, k, corridor, ⟨found, opened⟩,
      fun found' opened' => layout.unique found' found opened' opened, deadEnd,
      beside deadEnd.found deadEnd.dest⟩
  · intro id node found
    obtain ⟨type, loot, described⟩ := room found
    refine ⟨type, ⟨loot, stocked found⟩, ?_⟩
    rcases described with ⟨plain, _⟩ | both
    · have accepted : undescribed.accepts node g = true := accepts_undescribed.mpr ⟨type, plain⟩
      exact (nowhere (.tail _ (.tail _ (.head _))) (.tail _ (.head _))
        (Graph.mem_sites_node.mpr ⟨id, node, found, accepted, rfl⟩)).elim
    · exact both

/-- A run that stops because nothing is left to be done leaves a finished dungeon, whatever the depth, the
text generator and the seed, and no edge is dropped on the way. Only a dungeon that is deeper than 60 can
use up the ids, and there they must not run out. -/
theorem run_leaves_finished_dungeon (settings : DungeonSettings) (text : TextGenerator)
    (generator : Generator) (budget : Nat)
    (exhausted : (RunState.run (grammar settings text) budget ⟨seedGraph, generator⟩).1.halt = .exhausted)
    (spared : 60 < settings.maxDepth.toNat → SparesLast
      (Applied.nodes (RunState.changes (grammar settings text) budget ⟨seedGraph, generator⟩))
      (Applied.edges (RunState.changes (grammar settings text) budget ⟨seedGraph, generator⟩))) :
    Finished settings text (RunState.run (grammar settings text) budget ⟨seedGraph, generator⟩).2.graph ∧
      ∀ change ∈ RunState.changes (grammar settings text) budget ⟨seedGraph, generator⟩,
        change.droppedEdges = 0 := by
  have start : Unfinished settings text (⟨seedGraph, generator⟩ : RunState).graph :=
    unfinished_seedGraph
  have sparesLast : SparesLast
      (Applied.nodes (RunState.changes (grammar settings text) budget ⟨seedGraph, generator⟩))
      (Applied.edges (RunState.changes (grammar settings text) budget ⟨seedGraph, generator⟩)) := by
    rcases Nat.lt_or_ge 60 settings.maxDepth.toNat with deep | shallow
    · exact spared deep
    · exact sparesLast_of_maxDepth shallow text generator budget
  obtain ⟨last, dropped⟩ := start.run budget sparesLast
  refine ⟨last.finished ?_, dropped⟩
  rcases (run_draws (grammar settings text) budget ⟨seedGraph, generator⟩).2 with
    ⟨halted, _⟩ | ⟨_, nothing⟩
  · rw [halted] at exhausted
    cases exhausted
  · exact nothing

/-- Seven steps that end with a side room and a key room beside a locked path. -/
theorem run_leaves_finished_dungeon_with_lock :
    let settings : DungeonSettings := { maxDepth := 1 }
    let run := RunState.run (grammar settings .tagged) 9 ⟨seedGraph, .ofSeed 3⟩
    let changes := RunState.changes (grammar settings .tagged) 9 ⟨seedGraph, .ofSeed 3⟩
    (run.1.halt = .exhausted ∧ SparesLast (Applied.nodes changes) (Applied.edges changes) ∧
      run.2.graph.edges.any isLocked = true) ∧
      Finished settings .tagged run.2.graph ∧ ∀ change ∈ changes, change.droppedEdges = 0 := by
  have ends : (RunState.run (grammar { maxDepth := 1 } .tagged) 9 ⟨seedGraph, .ofSeed 3⟩).1.halt =
        .exhausted ∧
      SparesLast
        (Applied.nodes (RunState.changes (grammar { maxDepth := 1 } .tagged) 9 ⟨seedGraph, .ofSeed 3⟩))
        (Applied.edges (RunState.changes (grammar { maxDepth := 1 } .tagged) 9 ⟨seedGraph, .ofSeed 3⟩)) ∧
      (RunState.run (grammar { maxDepth := 1 } .tagged) 9
        ⟨seedGraph, .ofSeed 3⟩).2.graph.edges.any isLocked = true := by
    decide +kernel
  exact ⟨ends, run_leaves_finished_dungeon { maxDepth := 1 } .tagged (.ofSeed 3) 9 ends.1 fun _ => ends.2.1⟩

end GraphGrammar.Dungeon
