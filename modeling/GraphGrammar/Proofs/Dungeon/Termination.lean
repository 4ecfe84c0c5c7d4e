import GraphGrammar.Proofs.Dungeon.Layout
import GraphGrammar.Proofs.Dungeon.Workload
import GraphGrammar.Proofs.Engine.Draws
import GraphGrammar.Proofs.Graph.RoundTrip
import GraphGrammar.Proofs.Number.Rounding

/-!
Which dungeons are finished some time, whatever graph they start from. A path is split until its depth
reaches the greatest one, and each split adds one to the depth. This ends for all depths but those that are
so far below zero that they stall: one more is rounded away there, and the path can be split without an end.
-/

namespace GraphGrammar.Dungeon

open GraphGrammar.Graph (SparesLast ends?_eq_some_iff)

variable {settings : DungeonSettings} {text : TextGenerator} {g h : Graph}

/-- Whether counting up from a depth leads anywhere. -/
def Climbs (depth : Number) : Prop := depth.isFinite = true ∧ ¬depth.Stalls

theorem Climbs.add_one {x : Number} (climbs : Climbs x) : Climbs (x + 1) :=
  ⟨Number.isFinite_add_one climbs.1, Number.not_stalls_add_one climbs.1 climbs.2⟩

/-- The distance to the greatest depth in the least units, which bounds the splits in a row. -/
def distance (settings : DungeonSettings) (depth : Number) : Nat :=
  ((Number.ofNat settings.maxDepth.toNat).scaled - depth.scaled).toNat

theorem scaled_maxDepth_lt (maxDepth : UInt32) :
    (Number.ofNat maxDepth.toNat).scaled < 9007199254740992 * Number.unitsPerOne := by
  have positive := Number.unitsPerOne_pos
  have last : maxDepth.toNat < 9007199254740992 := Nat.lt_trans maxDepth.toNat_lt (by decide)
  have scaled := Nat.mul_lt_mul_of_pos_right last positive
  rw [Number.scaled_ofNat (Nat.le_of_lt last)]
  omega

theorem Climbs.distance_lt {x : Number} (climbs : Climbs x)
    (above : x < .ofNat settings.maxDepth.toNat) : distance settings (x + 1) < distance settings x := by
  obtain ⟨finite, climbs⟩ := climbs
  have last : settings.maxDepth.toNat ≤ Number.lastWhole :=
    Nat.le_of_lt (Nat.lt_trans settings.maxDepth.toNat_lt (by decide))
  rw [Number.lt_iff finite (Number.isFinite_ofNat_whole last)] at above
  have more := Number.scaled_lt_add_one finite climbs
    (Int.lt_trans above (scaled_maxDepth_lt settings.maxDepth))
  unfold distance
  omega

theorem climbing_draws_le {texts : List TextGenerator} (climbs : PathDepths Climbs g)
    (draws : Draws (texts.map (grammar settings)) g h) :
    texts.length ≤ (workload (distance settings)).total g := by
  have spent : (texts.map (grammar settings)).length + (workload (distance settings)).total h ≤
      (workload (distance settings)).total g := by
    refine draws.length_add_le (I := PathDepths Climbs) (fun other member => ?_) climbs
    obtain ⟨text, _, rfl⟩ := List.mem_map.mp member
    intro g set c found drawn climbs
    refine ⟨climbs.apply .add_one found drawn, ?_⟩
    -- A split pays off only where the next depth is closer to the greatest one.
    refine workload_apply_lt (fun id edge there undecided above => ?_) found drawn
    exact (climbs there undecided).distance_lt above
  rw [List.length_map] at spent
  omega

/-- Whether some undecided path has a depth that stalls. -/
def Stalled (g : Graph) : Prop :=
  ∃ id edge, g.edge? id = some edge ∧ isUndecidedPath edge = true ∧ (depth edge).isFinite = true ∧
    (depth edge).Stalls

theorem stalls_lt {x : Number} (finite : x.isFinite = true) (stalls : x.Stalls) (maxDepth : UInt32) :
    x < .ofNat maxDepth.toNat := by
  have positive := Number.unitsPerOne_pos
  have last : maxDepth.toNat ≤ Number.lastWhole :=
    Nat.le_of_lt (Nat.lt_trans maxDepth.toNat_lt (by decide))
  rw [Number.stalls_iff finite] at stalls
  rw [Number.lt_iff finite (Number.isFinite_ofNat_whole last), Number.scaled_ofNat last]
  have natural : (0 : Int) ≤ maxDepth.toNat * Number.unitsPerOne :=
    Int.mul_nonneg (Int.natCast_nonneg _) (Int.natCast_nonneg _)
  omega

theorem stalled_of_next {id : EdgeId} {path next : Edge} (found : h.edge? id = some next)
    (undecided : isUndecidedPath next = true) (deeper : depth next = depth path + 1)
    (finite : (depth path).isFinite = true) (stalls : (depth path).Stalls) : Stalled h := by
  refine ⟨id, next, found, undecided, ?_⟩
  rw [deeper]
  exact ⟨Number.isFinite_add_one finite, stalls.add_one finite⟩

theorem undecided_path (x : Number) (id : EdgeId) (src dest : NodeId) :
    isUndecidedPath ⟨id, src, dest, path x, none⟩ = true ∧ depth ⟨id, src, dest, path x, none⟩ = x :=
  ⟨isUndecidedPath_iff.mpr ⟨rfl, stateless_path x⟩, rfl⟩

/-- As long as ids do not run out, a path that stalls is replaced by one that stalls at most. -/
theorem Stalled.next (stalled : Stalled g) (step : Step settings text g h) : Stalled h := by
  obtain ⟨id, edge, found, undecided, finite, stalls⟩ := stalled
  cases step with
  | @replace m nodes edges h production replaced =>
    by_cases same : edge = m.edge
    · subst same
      have shallow := stalls_lt finite stalls settings.maxDepth
      have placed {next : Edge} (new : next ∈ edges) := replaced.adds.new_edge new
      cases production with
      | chamber =>
        obtain ⟨way, deeper⟩ := undecided_path (depth m.edge + 1) _ _ _
        exact stalled_of_next (placed (.head _)) way deeper finite stalls
      | fork =>
        obtain ⟨way, deeper⟩ := undecided_deeper undecided [] rfl _ _ _
        exact stalled_of_next (placed (.head _)) way deeper finite stalls
      | side =>
        obtain ⟨way, deeper⟩ := undecided_deeper undecided [("$side", _)] rfl _ _ _
        exact stalled_of_next (placed (.head _)) way deeper finite stalls
      -- The second tier waits until no path is shallow, and one that stalls always is.
      | lock deep => exact absurd shallow deep
      | opened deep => exact absurd shallow deep
    · exact ⟨id, edge, replaced.kept found same, undecided, finite, stalls⟩
  | furnish => exact ⟨id, edge, found, undecided, finite, stalls⟩

theorem Stalled.exists_match (stalled : Stalled g) (maxDepth : UInt32) :
    ∃ m, Matches g (growable maxDepth) m ∧ isUndecidedPath m.edge = true ∧
      (depth m.edge).isFinite = true ∧ (depth m.edge).Stalls := by
  obtain ⟨id, edge, found, undecided, finite, stalls⟩ := stalled
  obtain ⟨m, matched, rfl⟩ := matches_of_edge found fun _ _ =>
    accepts_growable.mpr ⟨undecided, stalls_lt finite stalls maxDepth⟩
  exact ⟨m, matched, undecided, finite, stalls⟩

theorem candidates?_of_grow {c : Candidate} (inTier : c ∈ g.tierCandidates (growTier settings)) :
    g.candidates? (grammar settings text) = some ⟨0, g.tierCandidates (growTier settings)⟩ := by
  unfold Graph.candidates? grammar Graph.candidatesFrom
  split
  · next nothing =>
    rw [nothing] at inTier
    cases inTier
  · rfl

/-- A fork leaves a path that stalls, whatever the ids are. -/
theorem Stalled.exists_draw (stalled : Stalled g) :
    ∃ h, Draws [grammar settings text] g h ∧ Stalled h := by
  obtain ⟨m, matched, undecided, finite, stalls⟩ := stalled.exists_match settings.maxDepth
  let rule : Rule := ⟨"grow/fork_path", 1, .graph (growable settings.maxDepth) (some ∘ forkPath)⟩
  let c : Candidate := ⟨rule, .edge m.edge.id m.edge.src m.edge.dest⟩
  have drawn : c ∈ g.tierCandidates (growTier settings) :=
    Graph.mem_tierCandidates.mpr ⟨.tail _ (.head _), matched.site⟩
  refine ⟨(g.apply c).2, .cons (candidates?_of_grow drawn) drawn (.nil _), ?_⟩
  have ends : Graph.ends? (g.eraseEdge m.edge.id).hasNode [] (deeper m) =
      some (m.edge.src, m.edge.dest) :=
    ends?_eq_some_iff.mpr ⟨rfl, rfl, Graph.hasNode_of_node? matched.src,
      Graph.hasNode_of_node? matched.dest⟩
  obtain ⟨id, found⟩ := Graph.edge_of_addEdgeSpecs_last ends [deeper m]
  have after : (g.apply c).2 =
      ((g.eraseEdge m.edge.id).addEdgeSpecs [] ([deeper m] ++ [deeper m])).2.2 :=
    congrArg Prod.snd (matched.replaceEdge forkPath)
  obtain ⟨way, deeper⟩ := undecided_deeper undecided [] rfl id m.edge.src m.edge.dest
  rw [after]
  exact stalled_of_next found way deeper finite stalls

theorem Stalled.candidates?_ne_none (stalled : Stalled g) :
    g.candidates? (grammar settings text) ≠ none := by
  have drawn : ∃ h, Draws [grammar settings text] g h ∧ Stalled h := stalled.exists_draw
  obtain ⟨h, draws, _⟩ := drawn
  cases draws with
  | cons found => simp [found]

theorem Stalled.endless (stalled : Stalled g) (texts : Nat → TextGenerator) :
    ∃ graphs : Nat → Graph, graphs 0 = g ∧
      ∀ n, Draws [grammar settings (texts n)] (graphs n) (graphs (n + 1)) := by
  exact exists_endless_draws (I := Stalled) (fun n g stalled => stalled.exists_draw) stalled

theorem Stalled.follow (texts : List TextGenerator) {s : RunState} (sound : s.graph.Sound)
    (stalled : Stalled s.graph)
    (spared : StepOutcome.SpareLast (RunState.follow (texts.map (grammar settings)) s).1) :
    .exhausted ∉ (RunState.follow (texts.map (grammar settings)) s).1 ∧
      (RunState.follow (texts.map (grammar settings)) s).2.graph.Sound ∧
      Stalled (RunState.follow (texts.map (grammar settings)) s).2.graph := by
  induction texts generalizing s with
  | nil => exact ⟨List.not_mem_nil, sound, stalled⟩
  | cons text rest ih =>
    rw [List.map_cons, RunState.follow_cons] at spared ⊢
    obtain ⟨now, later⟩ := RunState.spareLast_cons.mp spared
    rcases RunState.step_cases (grammar settings text) s with
      ⟨stopped, _⟩ | ⟨set, c, found, drawn, outcome, graph⟩
    · exact absurd (RunState.step_eq_exhausted_iff.mp stopped) stalled.candidates?_ne_none
    · rw [outcome] at now
      have development : Graph.Development (fun _ => True) s.graph _ _ (s.graph.apply c).2 :=
        Graph.applyAt_development ignoresTexts_true (Graph.allowed_true _) c.rule.kind.keeps_true c.site
      have next := stalled.next (step_of_candidate sound found drawn now).1
      have still := development.sound now sound
      rw [← graph] at next still
      obtain ⟨going, rest⟩ := ih still next later
      refine ⟨?_, rest⟩
      rw [List.mem_cons, not_or, outcome]
      exact ⟨StepOutcome.noConfusion, going⟩

theorem Stalled.run (text : TextGenerator) (budget : Nat) {s : RunState} (sound : s.graph.Sound)
    (stalled : Stalled s.graph)
    (spared : SparesLast (Applied.nodes (RunState.changes (grammar settings text) budget s))
      (Applied.edges (RunState.changes (grammar settings text) budget s))) :
    (RunState.run (grammar settings text) budget s).1 = ⟨budget, .budget⟩ := by
  obtain ⟨steps, same, ids⟩ := RunState.run_eq_follow (grammar settings text) budget s
  rw [← List.map_replicate] at same ids
  obtain ⟨_, still, last⟩ := stalled.follow _ sound (ids.mp spared)
  rw [← same] at still last
  rcases (run_draws (grammar settings text) budget s).2 with ⟨halted, count⟩ | ⟨_, nothing⟩
  · generalize (RunState.run (grammar settings text) budget s).1 = summary at halted count
    obtain ⟨_, _⟩ := summary
    cases halted
    cases count
    rfl
  · exact absurd nothing last.candidates?_ne_none

/-- Where no undecided path of a graph that was loaded stalls, all sequences of draws end within a bound,
whatever the text generator answers at each step, and runs stop because nothing is left to be done. Where one
does, draws can go on for ever, and neither steps nor runs stop before the ids run out. -/
theorem loaded_dungeon_ends_unless_stalled (settings : DungeonSettings) {source : String} {g : Graph}
    (loaded : Graph.ofText source = .ok g) :
    ((∀ id edge, g.edge? id = some edge → isUndecidedPath edge = true →
        ¬depth edge ≤ -9007199254740996) →
      ∃ bound, (∀ (texts : List TextGenerator) (h : Graph),
          Draws (texts.map (grammar settings)) g h → texts.length ≤ bound) ∧
        (∀ (texts : List TextGenerator) (generator : Generator), bound < texts.length →
          .exhausted ∈ (RunState.follow (texts.map (grammar settings)) ⟨g, generator⟩).1) ∧
        ∀ (text : TextGenerator) (generator : Generator) (budget : Nat), bound < budget →
          (RunState.run (grammar settings text) budget ⟨g, generator⟩).1.halt = .exhausted) ∧
    ∀ id edge, g.edge? id = some edge → isUndecidedPath edge = true →
      depth edge ≤ -9007199254740996 →
      (∀ texts : Nat → TextGenerator, ∃ graphs : Nat → Graph, graphs 0 = g ∧
        ∀ n, Draws [grammar settings (texts n)] (graphs n) (graphs (n + 1))) ∧
      (∀ (texts : List TextGenerator) (generator : Generator),
        StepOutcome.SpareLast (RunState.follow (texts.map (grammar settings)) ⟨g, generator⟩).1 →
          .exhausted ∉ (RunState.follow (texts.map (grammar settings)) ⟨g, generator⟩).1) ∧
      ∀ (text : TextGenerator) (generator : Generator) (budget : Nat),
        SparesLast (Applied.nodes (RunState.changes (grammar settings text) budget ⟨g, generator⟩))
          (Applied.edges (RunState.changes (grammar settings text) budget ⟨g, generator⟩)) →
        (RunState.run (grammar settings text) budget ⟨g, generator⟩).1 = ⟨budget, .budget⟩ := by
  obtain ⟨sound, fits⟩ := Graph.sound_of_ofText loaded
  have finite {id : EdgeId} {edge : Edge} (found : g.edge? id = some edge) :
      (depth edge).isFinite = true := depth_isFinite (fits.edge found).label
  constructor
  · intro above
    have climbs : PathDepths Climbs g := fun id edge found undecided =>
      ⟨finite found, above id edge found undecided⟩
    have short (texts : List TextGenerator) (h : Graph) (draws : Draws (texts.map (grammar settings)) g h) :
        texts.length ≤ (workload (distance settings)).total g :=
      climbing_draws_le climbs draws
    obtain ⟨stops, halts⟩ := ends_of_draws_le short
    exact ⟨_, short, stops, fun text generator budget => (halts text generator budget).2⟩
  · intro id edge found undecided low
    have stalled : Stalled g := ⟨id, edge, found, undecided, finite found, low⟩
    refine ⟨stalled.endless, fun texts generator spared => ?_,
      fun text generator budget spared => ?_⟩
    · exact (Stalled.follow texts (s := ⟨g, generator⟩) sound stalled spared).1
    · exact Stalled.run text budget (s := ⟨g, generator⟩) sound stalled spared

def seedAt (depth : Number) : Graph :=
  seedGraph.modifyEdgeLabel ⟨0⟩ fun label => label.insert "depth" (.num depth)

theorem sound_seedAt (depth : Number) : (seedAt depth).Sound := sound_seedGraph.modifyEdgeLabel _ _

theorem ofText_seedAt {depth : Number} (finite : depth.isFinite = true)
    (numbers : ∀ x ∈ (seedAt depth).numbers, x.isFinite = true → (Json.Numeral.real x).ReadsBack) :
    Graph.ofText (seedAt depth).text = .ok (seedAt depth) := by
  have storable : Admits Label.FitsGraph (Value.Storable 123) := admits_storable 122
  have write : Graph.Mutation Label.FitsGraph seedGraph [] [] (seedAt depth) :=
    .writeEdgeLabel seedGraph ⟨0⟩ fun label ok => storable.insert ok (.num finite)
  exact ((sound_seedAt depth).ofText_text (write.allowed storable.seedGraph) numbers).1

def stalledSeed : Graph := seedAt (-9007199254740996)

theorem ofText_stalledSeed : Graph.ofText stalledSeed.text = .ok stalledSeed :=
  ofText_seedAt (by decide +kernel) (by decide +kernel)

theorem stalled_stalledSeed : Stalled stalledSeed := by
  have path : ∃ edge ∈ stalledSeed.edges, isUndecidedPath edge = true ∧ (depth edge).isFinite = true ∧
      depth edge ≤ -9007199254740996 := by decide +kernel
  obtain ⟨edge, listed, stalls⟩ := path
  obtain ⟨id, found⟩ := Graph.mem_edges_iff.mp listed
  exact ⟨id, edge, found, stalls⟩

/-- A dungeon with the least depth that climbs is finished some time, one with the next depth below never. -/
theorem loaded_dungeon_ends_unless_stalled_by_one :
    let settings : DungeonSettings := { maxDepth := 0 }
    let low := seedAt (-9007199254740994)
    (∃ bound, (∀ texts : List TextGenerator, bound < texts.length →
          .exhausted ∈ (RunState.follow (texts.map (grammar settings)) ⟨low, .ofSeed 4⟩).1) ∧
        (RunState.run (grammar settings .tagged) (bound + 1) ⟨low, .ofSeed 4⟩).1.halt = .exhausted) ∧
      (∃ graphs : Nat → Graph, graphs 0 = stalledSeed ∧
        ∀ n, Draws [grammar settings .tagged] (graphs n) (graphs (n + 1))) ∧
      (RunState.run (grammar settings .tagged) 5 ⟨stalledSeed, .ofSeed 4⟩).1 = ⟨5, .budget⟩ := by
  intro settings low
  have loaded : Graph.ofText low.text = .ok low := ofText_seedAt (by decide +kernel) (by decide +kernel)
  have above : ∀ edge ∈ low.edges, ¬depth edge ≤ -9007199254740996 := by decide +kernel
  obtain ⟨bound, _, stops, halts⟩ := (loaded_dungeon_ends_unless_stalled settings loaded).1
    fun _ edge found _ => above edge (Graph.mem_edges_iff.mpr ⟨_, found⟩)
  obtain ⟨id, edge, found, undecided, _, deep⟩ := stalled_stalledSeed
  obtain ⟨endless, _, runs⟩ :=
    (loaded_dungeon_ends_unless_stalled settings ofText_stalledSeed).2 id edge found undecided deep
  have spared : SparesLast
      (Applied.nodes (RunState.changes (grammar settings .tagged) 5 ⟨stalledSeed, .ofSeed 4⟩))
      (Applied.edges (RunState.changes (grammar settings .tagged) 5 ⟨stalledSeed, .ofSeed 4⟩)) := by
    decide +kernel
  exact ⟨⟨bound, fun texts long => stops texts (.ofSeed 4) long, halts .tagged _ _ (Nat.lt_succ_self bound)⟩,
    endless fun _ => .tagged, runs .tagged _ 5 spared⟩

/-- A document whose dungeon is never finished: there are draws without an end under any settings and any
answers, and no run comes to an end as long as there are ids for it. -/
theorem stalledSeed_never_ends :
    Graph.ofText stalledSeed.text = .ok stalledSeed ∧
      (∀ (settings : DungeonSettings) (texts : Nat → TextGenerator), ∃ graphs : Nat → Graph,
        graphs 0 = stalledSeed ∧ ∀ n, Draws [grammar settings (texts n)] (graphs n) (graphs (n + 1))) ∧
      ∀ (settings : DungeonSettings) (text : TextGenerator) (generator : Generator), ∀ budget ≤ 2 ^ 60,
        (RunState.run (grammar settings text) budget ⟨stalledSeed, generator⟩).1 = ⟨budget, .budget⟩ := by
  have sound : stalledSeed.Sound := sound_seedAt _
  refine ⟨ofText_stalledSeed, fun settings => stalled_stalledSeed.endless, ?_⟩
  intro settings text generator budget few
  refine Stalled.run text budget (s := ⟨stalledSeed, generator⟩) sound stalled_stalledSeed ?_
  have nextNode : stalledSeed.ids.nextNode.toNat = 2 := by rfl
  have nextEdge : stalledSeed.ids.nextEdge.toNat = 1 := by rfl
  have size : UInt64.size = 2 ^ 64 := rfl
  apply RunState.run_sparesLast grammar_growsBy
  · rw [nextNode]
    omega
  · rw [nextEdge]
    omega

end GraphGrammar.Dungeon
