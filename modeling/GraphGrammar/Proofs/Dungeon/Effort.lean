import GraphGrammar.Proofs.Dungeon.Workload
import GraphGrammar.Proofs.Engine.Draws
import GraphGrammar.Proofs.Number.Whole

/-!
Every dungeon is finished some time. Depths are counted from zero, so a path can be split as many times in a
row as levels are missing to the greatest depth. This is the effort that the workload of a dungeon is measured
with.
-/

namespace GraphGrammar.Dungeon

open GraphGrammar.Graph (SparesLast)

variable {settings : DungeonSettings} {text : TextGenerator} {g : Graph}

def level (depth : Number) : Nat := depth.magnitude / Number.unitsPerOne

theorem level_ofNat {k : Nat} (whole : k ≤ Number.lastWhole) : level (.ofNat k) = k := by
  rw [level, Number.magnitude_ofNat whole, Nat.mul_div_cancel _ Number.unitsPerOne_pos]

/-- A depth that is reached by counting. -/
def IsCount (x : Number) : Prop := ∃ k ≤ Number.lastWhole, x = .ofNat k

theorem isCount_ofNat {k : Nat} (whole : k ≤ Number.lastWhole) : IsCount (.ofNat k) := ⟨k, whole, rfl⟩

theorem isCount_zero : IsCount 0 := isCount_ofNat (Nat.zero_le _)

theorem IsCount.add_one {x : Number} (count : IsCount x) : IsCount (x + 1) := by
  obtain ⟨k, whole, rfl⟩ := count
  rcases Nat.eq_or_lt_of_le whole with rfl | below
  · exact ⟨_, whole, Number.count_ends.2.2⟩
  · exact ⟨k + 1, below, Number.ofNat_add_one below⟩

theorem level_add_one {maxDepth : UInt32} {x : Number} (count : IsCount x)
    (above : x < .ofNat maxDepth.toNat) :
    level x < maxDepth.toNat ∧ level (x + 1) = level x + 1 := by
  obtain ⟨k, whole, rfl⟩ := count
  have last : maxDepth.toNat < Number.lastWhole := Nat.lt_trans maxDepth.toNat_lt (by decide)
  have less : k < maxDepth.toNat := (Number.ofNat_lt_iff whole (Nat.le_of_lt last)).mp above
  have below : k < Number.lastWhole := Nat.lt_trans less last
  rw [Number.ofNat_add_one below, level_ofNat whole, level_ofNat below]
  exact ⟨less, rfl⟩

/-- Labels whose depth, if they have one, was counted. -/
def Graded (label : Label) : Prop := ∀ x, label.number? "depth" = some x → IsCount x

theorem Graded.depth {edge : Edge} (graded : Graded edge.label) : IsCount (depth edge) := by
  unfold Dungeon.depth
  cases found : edge.label.number? "depth" with
  | none => exact isCount_zero
  | some x => exact graded x found

theorem admits_graded : Admits Graded fun value => ∀ x, value = .num x → IsCount x where
  empty _ found := nomatch found
  insert := by
    intro label key value counted number x found
    rw [Label.number?, Label.get?_insert] at found
    split at found
    · cases value <;> cases found
      exact number x rfl
    · exact counted x found
  merge := by
    intro label patch counted patchCounted x found
    rw [Label.number?, Label.get?_merge] at found
    cases written : patch.get? "depth" with
    | none =>
      rw [written] at found
      exact counted x found
    | some value =>
      rw [written] at found
      cases value <;> cases found
      exact patchCounted x (by rw [Label.number?, written]; rfl)
  text _ _ same := nomatch same
  flag _ _ same := nomatch same
  start _ same := Value.num.inj same ▸ isCount_zero
  level _ graded _ same := Value.num.inj same ▸ graded.depth.add_one
  chest _ same := nomatch same

theorem graded_ignoresTexts : IgnoresTexts Graded := by
  intro f label counted x found
  rw [Label.number?_mapStrings] at found
  exact counted x found

def effort (maxDepth : Nat) : Effort := workload fun depth => maxDepth - level depth

theorem graded_apply {set : CandidateSet} {c : Candidate}
    (found : g.candidates? (grammar settings text) = some set) (drawn : c ∈ set.candidates)
    (graded : g.Allowed Graded) : (g.apply c).2.Allowed Graded ∧
      (effort settings.maxDepth.toNat).total (g.apply c).2 <
        (effort settings.maxDepth.toNat).total g := by
  obtain ⟨tier, inGrammar, inTier, _⟩ := Graph.mem_candidates? found drawn
  have grammarKeeps : (grammar settings text).Keeps Graded := admits_graded.keeps
  have keeps := grammarKeeps tier inGrammar c.rule inTier
  have development := Graph.applyAt_development graded_ignoresTexts graded keeps c.site
  -- A split lowers the effort only because depths are counted: above the last whole number a level more
  -- would be the same depth.
  refine ⟨development.allowed graded, workload_apply_lt (fun id edge there _ above => ?_) found drawn⟩
  obtain ⟨less, next⟩ := level_add_one (graded.edge there).label.depth above
  omega

theorem effort_seedGraph (maxDepth : Nat) : (effort maxDepth).total seedGraph ≤ 2 ^ (maxDepth + 2) := by
  have first := (effort maxDepth).total_addNode_le ∅ (room "entrance")
  have second := (effort maxDepth).total_addNode_le ((∅ : Graph).addNode (room "entrance")).2 (room "goal")
  have way := (effort maxDepth).total_addEdge_le seedGraph_added
  have nothing : (effort maxDepth).total ∅ = 0 := rfl
  have depth : (path 0).number? "depth" = some 0 := rfl
  have bound : (effort maxDepth).edge (path 0) ≤ pathEffort (maxDepth - level 0) :=
    workload_edge_le _ depth
  have start : level 0 = 0 := level_ofNat (Nat.zero_le _)
  have power := two_le_pathEffort maxDepth
  have entrance : (effort maxDepth).node (room "entrance") = _ := workload_room _ "entrance"
  have goal : (effort maxDepth).node (room "goal") = _ := workload_room _ "goal"
  rw [if_neg (by decide)] at entrance goal
  rw [start, Nat.sub_zero] at bound
  unfold firstRooms at way
  simp only [pathEffort] at bound power
  omega

theorem draws_length_le {texts : List TextGenerator}
    (draws : Draws (texts.map (grammar settings)) seedGraph g) :
    texts.length ≤ 2 ^ (settings.maxDepth.toNat + 2) := by
  have spent : (texts.map (grammar settings)).length + (effort settings.maxDepth.toNat).total g ≤
      (effort settings.maxDepth.toNat).total seedGraph := by
    refine draws.length_add_le (I := (·.Allowed Graded)) (fun other member => ?_) admits_graded.seedGraph
    obtain ⟨text, _, rfl⟩ := List.mem_map.mp member
    exact graded_apply
  have start := effort_seedGraph settings.maxDepth.toNat
  rw [List.length_map] at spent
  omega

theorem run_steps_le (settings : DungeonSettings) (text : TextGenerator) (generator : Generator)
    (budget : Nat) :
    (RunState.run (grammar settings text) budget ⟨seedGraph, generator⟩).1.steps ≤
      2 ^ (settings.maxDepth.toNat + 2) :=
  ((ends_of_draws_le fun _ _ => draws_length_le).2 text generator budget).1

theorem sparesLast_of_maxDepth (shallow : settings.maxDepth.toNat ≤ 60) (text : TextGenerator)
    (generator : Generator) (budget : Nat) : SparesLast
      (Applied.nodes (RunState.changes (grammar settings text) budget ⟨seedGraph, generator⟩))
      (Applied.edges (RunState.changes (grammar settings text) budget ⟨seedGraph, generator⟩)) := by
  have steps := run_steps_le settings text generator budget
  have power : 2 ^ (settings.maxDepth.toNat + 2) ≤ 2 ^ 62 :=
    Nat.pow_le_pow_right (by decide) (Nat.add_le_add_right shallow 2)
  have nextNode : seedGraph.ids.nextNode.toNat = 2 := by rfl
  have nextEdge : seedGraph.ids.nextEdge.toNat = 1 := by rfl
  have size : UInt64.size = 2 ^ 64 := rfl
  apply (RunState.run_takes grammar_growsBy budget ⟨seedGraph, generator⟩).sparesLast
  · rw [nextNode]
    omega
  · rw [nextEdge]
    omega

theorem spareLast_of_length {texts : List TextGenerator} (generator : Generator)
    (short : texts.length < 2 ^ 63 - 1) : StepOutcome.SpareLast
      (RunState.follow (texts.map (grammar settings)) ⟨seedGraph, generator⟩).1 := by
  have grows : ∀ other ∈ texts.map (grammar settings), other.GrowsBy 1 2 := by
    intro _ member
    obtain ⟨text, _, rfl⟩ := List.mem_map.mp member
    exact grammar_growsBy
  have nextNode : seedGraph.ids.nextNode.toNat = 2 := by rfl
  have nextEdge : seedGraph.ids.nextEdge.toNat = 1 := by rfl
  have size : UInt64.size = 2 ^ 64 := rfl
  refine RunState.follow_spareLast grows ?_ ?_
  · change seedGraph.ids.nextNode.toNat + _ < _
    rw [nextNode, List.length_map]
    omega
  · change seedGraph.ids.nextEdge.toNat + _ < _
    rw [nextEdge, List.length_map]
    omega

theorem spareLast_of_maxDepth (shallow : settings.maxDepth.toNat ≤ 60) (texts : List TextGenerator)
    (generator : Generator) : StepOutcome.SpareLast
      (RunState.follow (texts.map (grammar settings)) ⟨seedGraph, generator⟩).1 := by
  obtain ⟨going, sublist, goes, _, spared⟩ :=
    RunState.exists_going (texts.map (grammar settings)) ⟨seedGraph, generator⟩
  obtain ⟨answers, _, rfl⟩ := List.sublist_map_iff.mp sublist
  have short := draws_length_le (draws_of_follow goes)
  have power : 2 ^ (settings.maxDepth.toNat + 2) ≤ 2 ^ 62 :=
    Nat.pow_le_pow_right (by decide) (Nat.add_le_add_right shallow 2)
  exact spared.mpr (spareLast_of_length generator (by omega))

theorem spareLast_of_deep (texts : List TextGenerator) (generator : Generator)
    (spared : 60 < settings.maxDepth.toNat → 2 ^ 63 - 1 ≤ texts.length → StepOutcome.SpareLast
      (RunState.follow (texts.map (grammar settings)) ⟨seedGraph, generator⟩).1) :
    StepOutcome.SpareLast
      (RunState.follow (texts.map (grammar settings)) ⟨seedGraph, generator⟩).1 := by
  rcases Nat.lt_or_ge 60 settings.maxDepth.toNat with deep | shallow
  · rcases Nat.lt_or_ge texts.length (2 ^ 63 - 1) with short | long
    · exact spareLast_of_length generator short
    · exact spared deep long
  · exact spareLast_of_maxDepth shallow texts generator

/-- No sequence of draws in a dungeon is longer than `2 ^ (maxDepth + 2)`, whatever the text generator
answers at each step. So steps under more answers than that come to a stop, and a run with a greater budget
stops because nothing is left to be done. -/
theorem dungeon_is_finished (settings : DungeonSettings) :
    let bound := 2 ^ (settings.maxDepth.toNat + 2)
    (∀ (texts : List TextGenerator) (g : Graph),
      Draws (texts.map (grammar settings)) seedGraph g → texts.length ≤ bound) ∧
    (∀ (texts : List TextGenerator) (generator : Generator), bound < texts.length →
      .exhausted ∈ (RunState.follow (texts.map (grammar settings)) ⟨seedGraph, generator⟩).1) ∧
    ∀ (text : TextGenerator) (generator : Generator) (budget : Nat),
      let summary := (RunState.run (grammar settings text) budget ⟨seedGraph, generator⟩).1
      summary.steps ≤ bound ∧ (bound < budget → summary.halt = .exhausted) := by
  intro bound
  refine ⟨fun texts g => draws_length_le, fun texts generator long => ?_,
    fun text generator budget => ?_⟩
  · refine Classical.byContradiction fun going => ?_
    have short := draws_length_le (draws_of_follow going)
    omega
  · intro summary
    have short := run_steps_le settings text generator budget
    refine ⟨short, fun large => ?_⟩
    rcases (run_draws (grammar settings text) budget ⟨seedGraph, generator⟩).2 with
      ⟨_, spent⟩ | ⟨exhausted, _⟩
    · omega
    · exact exhausted

/-- Three draws with answers and failures of the generator, and longer sequences that come to a stop. -/
theorem dungeon_is_finished_at_depth_one :
    let settings : DungeonSettings := { maxDepth := 1 }
    let texts := (List.replicate 5 [TextGenerator.tagged, .silent]).flatten
    let first := (texts.take 3).map (grammar settings)
    let g := (RunState.follow first ⟨seedGraph, .ofSeed 9⟩).2.graph
    (Draws first seedGraph g ∧ (texts.take 3).length ≤ 8) ∧
      (8 < texts.length ∧
        .exhausted ∈ (RunState.follow (texts.map (grammar settings)) ⟨seedGraph, .ofSeed 9⟩).1) ∧
      (RunState.run (grammar settings .tagged) 9 ⟨seedGraph, .ofSeed 9⟩).1.halt = .exhausted := by
  intro settings texts first g
  obtain ⟨short, stops, runs⟩ := dungeon_is_finished settings
  have going : .exhausted ∉ (RunState.follow first ⟨seedGraph, .ofSeed 9⟩).1 := by decide +kernel
  have draws : Draws first seedGraph g := draws_of_follow going
  have long : 8 < texts.length := by decide
  have large : 2 ^ (settings.maxDepth.toNat + 2) < 9 := by decide
  obtain ⟨_, halts⟩ := runs .tagged (.ofSeed 9) 9
  exact ⟨⟨draws, short (texts.take 3) g draws⟩, ⟨long, stops texts (.ofSeed 9) long⟩, halts large⟩

end GraphGrammar.Dungeon
