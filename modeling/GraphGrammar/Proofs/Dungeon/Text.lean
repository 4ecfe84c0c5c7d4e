import GraphGrammar.Proofs.Dungeon.Rules
import GraphGrammar.Proofs.Engine.Erasure

/-!
What the text generator says goes under one key, and no rule looks at this key. So the style and the
answers of the generator change nothing else in a dungeon.
-/

namespace GraphGrammar.Dungeon

variable {settings : DungeonSettings} {text : TextGenerator}

def unstyled (maxDepth : UInt32) : DungeonSettings := { maxDepth, style := "" }

theorem isUndecidedPath_strip (edge : Edge) :
    isUndecidedPath (edge.strip "description") = isUndecidedPath edge := by
  have type : (edge.strip "description").label.string? "type" = edge.label.string? "type" :=
    Label.string?_erase_of_ne _ (by decide)
  have state : (edge.strip "description").label.contains "state" = edge.label.contains "state" :=
    Label.contains_erase_of_ne _ (by decide)
  rw [isUndecidedPath, isPath, type, state]
  rfl

theorem depth_strip (edge : Edge) :
    depth (edge.strip "description") = depth edge := by
  rw [depth, Edge.strip, Label.number?_erase_of_ne _ (by decide)]
  rfl

theorem undecided_stripsTo : undecided.StripsTo "description" undecided := by
  intro m g
  simp only [undecided, EdgePattern.accepts, Condition.accepts, isUndecidedPath_strip]

theorem growable_stripsTo (maxDepth : UInt32) :
    (growable maxDepth).StripsTo "description" (growable maxDepth) := by
  intro m g
  simp only [growable, EdgePattern.accepts, Condition.accepts,
    isUndecidedPath_strip, depth_strip]

theorem growableOutside_stripsTo (maxDepth : UInt32) :
    (growableOutside maxDepth).StripsTo "description" (growableOutside maxDepth) := by
  intro m g
  have role : (m.src.strip "description").label.string? "role" = m.src.label.string? "role" :=
    Label.string?_erase_of_ne _ (by decide)
  simp only [growableOutside, growable, EdgePattern.accepts, Condition.accepts, role,
    isUndecidedPath_strip, depth_strip]

theorem unstocked_stripsTo : unstocked.StripsTo "description" unstocked := by
  intro node g
  have role : (node.strip "description").label.string? "role" = node.label.string? "role" :=
    Label.string?_erase_of_ne _ (by decide)
  have loot : (node.strip "description").label.contains "loot" = node.label.contains "loot" :=
    Label.contains_erase_of_ne _ (by decide)
  simp only [unstocked, Condition.accepts, role, loot]

theorem undescribed_stripsTo : undescribed.StripsTo "description" undescribed := by
  intro node g
  have type : (node.strip "description").label.string? "type" = node.label.string? "type" :=
    Label.string?_erase_of_ne _ (by decide)
  have described :
      (node.strip "description").label.contains "described" = node.label.contains "described" :=
    Label.contains_erase_of_ne _ (by decide)
  simp only [undescribed, Condition.accepts, type, described]

theorem merge_stripsTo {key : String} (value : Value) (other : "description" ≠ key) :
    Update.StripsTo "description" (.merge (.ofList [(key, value)])) (.merge (.ofList [(key, value)])) := by
  intro label
  have absent : (Label.ofList [(key, value)]).get? "description" = none := by
    change ((∅ : Label).insert key value).get? "description" = none
    rw [Label.get?_insert, if_neg other.symm]
    rfl
  exact (Label.erase_merge label absent).symm

theorem erase_describe (line : Except TextError String) (label : Label) :
    (describe line label).erase "description" = label.erase "description" := by
  unfold describe
  split
  · exact Label.erase_insert_self label _
  · rfl

theorem describeRoom_stripsTo (maxDepth : UInt32) :
    Update.StripsTo "description" (.apply (describeRoom settings text))
      (.apply (describeRoom (unstyled maxDepth) .silent)) := by
  intro label
  change (label.erase "description").insert "described" (.bool true) = _
  rw [← erase_describe (text.rephrase settings.style (roomTemplate (label.string? "role")))]
  exact (Label.erase_insert_of_ne _ _ (by decide)).symm

theorem reemit_strip (edge : Edge) {key : String} (value : Value) (other : "description" ≠ key) :
    (EdgeSpec.reemit (edge.strip "description")).merged (.ofList [(key, value)]) =
      ((EdgeSpec.reemit edge).merged (.ofList [(key, value)])).strip "description" :=
  congrArg (fun label => EdgeSpec.mk (.node edge.src) (.node edge.dest) label edge.prereq)
    (merge_stripsTo value other edge.label)

theorem deeper_strip (m : MatchedEdge) :
    deeper (m.strip "description") = (deeper m).strip "description" := by
  have level : depth (m.strip "description").edge = depth m.edge := depth_strip m.edge
  unfold deeper
  rw [level]
  exact reemit_strip m.edge _ (by decide)

theorem insertChamber_strip (m : MatchedEdge) :
    insertChamber (m.strip "description") = (insertChamber m).strip "description" := by
  have level : depth (m.strip "description").edge = depth m.edge := depth_strip m.edge
  unfold insertChamber
  rw [level]
  rfl

theorem forkPath_strip (m : MatchedEdge) :
    forkPath (m.strip "description") = (forkPath m).strip "description" := by
  unfold forkPath
  rw [deeper_strip]
  rfl

theorem sideRoom_strip (m : MatchedEdge) :
    sideRoom (m.strip "description") = (sideRoom m).strip "description" := by
  unfold sideRoom
  rw [deeper_strip]
  rfl

theorem keyCorridor_strip (src src' : Node) (maxDepth : UInt32) :
    keyCorridor (unstyled maxDepth) .silent src' =
      (keyCorridor settings text src).erase "description" := by
  unfold keyCorridor
  rw [erase_describe]
  rfl

theorem lockDoor_strip (m : MatchedEdge) (maxDepth : UInt32) :
    lockDoor (unstyled maxDepth) .silent (m.strip "description") =
      (lockDoor settings text m).strip "description" := by
  have corridor : keyCorridor (unstyled maxDepth) .silent (m.strip "description").src =
      (keyCorridor settings text m.src).erase "description" := keyCorridor_strip m.src _ maxDepth
  have locked := reemit_strip m.edge (.str "locked") (by decide : "description" ≠ "state")
  have prereq (spec : EdgeSpec) (prereq : Option Label) :
      { spec.strip "description" with prereq } = { spec with prereq }.strip "description" := rfl
  unfold lockDoor MatchedEdge.strip at *
  rw [corridor, locked, prereq]
  rfl

/-- Without the key for descriptions, the grammar does what it does without any text and style. -/
theorem grammar_stripsTo : (grammar settings text).StripsTo "description"
    (grammar (unstyled settings.maxDepth) .silent) := by
  have grow : (growTier settings).StripsTo "description" (growTier (unstyled settings.maxDepth)) := by
    have growable := growable_stripsTo settings.maxDepth
    have growableOutside := growableOutside_stripsTo settings.maxDepth
    refine .cons ⟨rfl, rfl, growable, fun m => ?_⟩ (.cons ⟨rfl, rfl, growable, fun m => ?_⟩
      (.cons ⟨rfl, rfl, growableOutside, fun m => ?_⟩ .nil))
    · exact congrArg some (insertChamber_strip m)
    · exact congrArg some (forkPath_strip m)
    · exact congrArg some (sideRoom_strip m)
  have lock : (lockTier settings text).StripsTo "description"
      (lockTier (unstyled settings.maxDepth) .silent) := by
    refine .cons ⟨rfl, rfl, undecided_stripsTo, fun m => ?_⟩
      (.cons ⟨rfl, rfl, undecided_stripsTo, ?_⟩ .nil)
    · exact congrArg some (lockDoor_strip m settings.maxDepth)
    · exact merge_stripsTo _ (by decide)
  have furnish : (furnishTier settings text).StripsTo "description"
      (furnishTier (unstyled settings.maxDepth) .silent) := by
    refine .cons ⟨rfl, rfl, unstocked_stripsTo, ?_⟩ (.cons ⟨rfl, rfl, undescribed_stripsTo, ?_⟩ .nil)
    · exact merge_stripsTo _ (by decide)
    · exact describeRoom_stripsTo settings.maxDepth
  exact .cons grow (.cons lock (.cons furnish .nil))

theorem trace_without_text (settings : DungeonSettings) (texts : List TextGenerator) (s : RunState) :
    (s.trace (texts.map (grammar settings))).map
        (fun (outcome, t) => (outcome, t.strip "description")) =
      (s.strip "description").trace
        (.replicate texts.length (grammar (unstyled settings.maxDepth) .silent)) := by
  have alike : List.Forall₂ (Grammar.StripsTo "description") (texts.map (grammar settings))
      (.replicate texts.length (grammar (unstyled settings.maxDepth) .silent)) := by
    induction texts with
    | nil => exact .nil
    | cons text rest ih => exact .cons grammar_stripsTo ih
  exact (RunState.trace_strip alike s).symm

/-- Two runs of the grammar from one state, each with a style and answers of the text generator of its
own. After every step they report the same, their generators and counters are the same, and so are their
graphs but for the descriptions of nodes and edges. -/
theorem text_changes_descriptions_only (maxDepth : UInt32) (style style' : String)
    {texts texts' : List TextGenerator} (length : texts.length = texts'.length) (s : RunState) :
    let view : StepOutcome × RunState → StepOutcome × Generator × Allocator × Graph :=
      fun (outcome, t) => (outcome, t.generator, t.graph.ids, t.graph.strip "description")
    (s.trace (texts.map (grammar { maxDepth, style }))).map view =
      (s.trace (texts'.map (grammar { maxDepth, style := style' }))).map view := by
  intro view
  have left := trace_without_text { maxDepth, style } texts s
  have right := trace_without_text { maxDepth, style := style' } texts' s
  rw [← length] at right
  have same := left.trans right.symm
  have seen := congrArg (List.map fun (outcome, t) =>
    ((outcome, t.generator, t.graph.ids, t.graph) : StepOutcome × Generator × Allocator × Graph)) same
  rw [List.map_map, List.map_map] at seen
  exact seen

/-- A generator that answers, and one that fails at first. -/
theorem text_changes_descriptions_only_in_new_dungeon :
    let start : RunState := ⟨seedGraph, .ofSeed 5⟩
    let texts : List TextGenerator := [.tagged, .tagged, .tagged]
    let texts' : List TextGenerator := [.failing (.backend "quota exhausted"), .silent, .tagged]
    let view : StepOutcome × RunState → StepOutcome × Generator × Allocator × Graph :=
      fun (outcome, t) => (outcome, t.generator, t.graph.ids, t.graph.strip "description")
    texts.length = texts'.length ∧
      (start.trace (texts.map (grammar { maxDepth := 2, style := "cave" }))).map view =
        (start.trace (texts'.map (grammar { maxDepth := 2, style := "" }))).map view := by
  intro start texts texts' view
  have length : texts.length = texts'.length := rfl
  exact ⟨length, text_changes_descriptions_only 2 "cave" "" length start⟩

end GraphGrammar.Dungeon
