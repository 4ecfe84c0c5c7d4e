import GraphGrammar.Proofs.Dungeon.Depths

/-!
The work that is left in a dungeon. A path that is undecided can still become two deeper paths and a room,
and each room is furnished in at most two steps. If a path can be split only so many times in a row, the
workload counts the steps that all this takes at most, and every step lowers it.
-/

namespace GraphGrammar.Dungeon

variable {settings : DungeonSettings} {text : TextGenerator} {g : Graph} {m : MatchedEdge}

def pathEffort (splits : Nat) : Nat := 2 ^ (splits + 2) - 2

theorem two_le_pathEffort (splits : Nat) : 2 ≤ pathEffort splits := by
  have power : 2 ^ 2 ≤ 2 ^ (splits + 2) := Nat.pow_le_pow_right (by decide) (by omega)
  rw [pathEffort]
  omega

theorem pathEffort_succ (splits : Nat) : pathEffort (splits + 1) = 2 * pathEffort splits + 2 := by
  have power : 2 ^ 2 ≤ 2 ^ (splits + 2) := Nat.pow_le_pow_right (by decide) (by omega)
  have double : 2 ^ (splits + 1 + 2) = 2 * 2 ^ (splits + 2) := by
    rw [Nat.add_right_comm, Nat.pow_succ, Nat.mul_comm]
  rw [pathEffort, pathEffort, double]
  omega

theorem pathEffort_le {splits more : Nat} (le : splits ≤ more) : pathEffort splits ≤ pathEffort more :=
  Nat.sub_le_sub_right (Nat.pow_le_pow_right (by decide) (Nat.add_le_add_right le 2)) 2

/-- The steps that are still to be taken at most, where a path of some depth can be split so many times one
after the other. -/
def workload (splits : Number → Nat) : Effort where
  node label :=
    (if label.string? "role" = some "side" ∧ label.contains "loot" = false then 1 else 0) +
    (if label.string? "type" = some "room" ∧ label.contains "described" = false then 1 else 0)
  edge := onPaths fun depth => pathEffort (splits depth)

variable {splits : Number → Nat}

theorem workload_room (splits : Number → Nat) (role : String) :
    (workload splits).node (room role) = (if role = "side" then 1 else 0) + 1 := by
  have named : (room role).string? "role" = some role := rfl
  have type : (room role).string? "type" = some "room" := rfl
  have unstocked : (room role).contains "loot" = false := rfl
  have undescribed : (room role).contains "described" = false := rfl
  simp [workload, named, type, unstocked, undescribed]

theorem workload_edge (splits : Number → Nat) :
    (workload splits).edge = onPaths fun depth => pathEffort (splits depth) := rfl

theorem workload_edge_le (splits : Number → Nat) {label : Label} {x : Number}
    (depth : label.number? "depth" = some x) : (workload splits).edge label ≤ pathEffort (splits x) := by
  rw [workload_edge]
  exact onPaths_le depth

theorem workload_edge_of_undecided {edge : Edge} (undecided : isUndecidedPath edge = true) :
    (workload splits).edge edge.label = pathEffort (splits (depth edge)) := by
  rw [workload_edge, onPaths_of_undecided undecided]

-- What takes the place of a path takes fewer steps than the path.
section

variable (bindings : Bindings) (undecided : isUndecidedPath m.edge = true)

include undecided

/-- A path takes two steps more than two deeper paths take at most. -/
theorem workload_next_level (progress : splits (depth m.edge + 1) < splits (depth m.edge)) :
    2 ≤ pathEffort (splits (depth m.edge + 1)) ∧
      2 * pathEffort (splits (depth m.edge + 1)) + 2 ≤ (workload splits).edge m.edge.label := by
  rw [workload_edge_of_undecided undecided, ← pathEffort_succ]
  exact ⟨two_le_pathEffort _, pathEffort_le progress⟩

theorem workload_insertChamber (progress : splits (depth m.edge + 1) < splits (depth m.edge)) :
    (workload splits).nodes (insertChamber m).nodes +
      (workload splits).edges bindings (insertChamber m).edges < (workload splits).edge m.edge.label := by
  obtain ⟨_, split⟩ := workload_next_level undecided progress
  have ways := edges_insertChamber_le (m := m) (workload_edge splits) bindings
  have chamber := workload_room splits "chamber"
  rw [if_neg (by decide)] at chamber
  simp only [insertChamber, Effort.nodes, List.map_cons, List.map_nil, List.sum_cons, List.sum_nil,
    chamber] at ways ⊢
  omega

theorem workload_forkPath (progress : splits (depth m.edge + 1) < splits (depth m.edge)) :
    (workload splits).nodes (forkPath m).nodes +
      (workload splits).edges bindings (forkPath m).edges < (workload splits).edge m.edge.label := by
  obtain ⟨_, split⟩ := workload_next_level undecided progress
  have ways := edges_forkPath_le (m := m) (workload_edge splits) bindings
  simp only [forkPath, Effort.nodes, List.map_nil, List.sum_nil] at ways ⊢
  omega

theorem workload_sideRoom (progress : splits (depth m.edge + 1) < splits (depth m.edge))
    (unbound : bindings.text? "corridor" = none) :
    (workload splits).nodes (sideRoom m).nodes +
      (workload splits).edges bindings (sideRoom m).edges < (workload splits).edge m.edge.label := by
  obtain ⟨two, split⟩ := workload_next_level undecided progress
  have ways := edges_sideRoom_le (m := m) (workload_edge splits) bindings unbound
  have side := workload_room splits "side"
  rw [if_pos rfl] at side
  simp only [sideRoom, Effort.nodes, List.map_cons, List.map_nil, List.sum_cons, List.sum_nil,
    side] at ways ⊢
  omega

theorem workload_lockDoor (unbound : bindings.text? "corridor" = none) :
    (workload splits).nodes (lockDoor settings text m).nodes +
      (workload splits).edges bindings (lockDoor settings text m).edges <
        (workload splits).edge m.edge.label := by
  have key := workload_room splits "key"
  have old := two_le_pathEffort (splits (depth m.edge))
  rw [if_neg (by decide)] at key
  rw [edges_lockDoor (workload_edge splits) bindings unbound, workload_edge_of_undecided undecided]
  simp only [lockDoor, Effort.nodes, List.map_cons, List.map_nil, List.sum_cons, List.sum_nil, key]
  omega

theorem workload_opened :
    (workload splits).edge (m.edge.label.merge (.ofList [("state", .str "open")])) <
      (workload splits).edge m.edge.label := by
  have old := two_le_pathEffort (splits (depth m.edge))
  rw [workload_edge_of_undecided undecided, workload_edge, onPaths_opened]
  omega

end

theorem workload_stocked {label : Label} (side : label.string? "role" = some "side")
    (unstocked : label.contains "loot" = false) :
    (workload splits).node (label.merge (.ofList [("loot", chest.toValue)])) <
      (workload splits).node label := by
  have stocked := Label.contains_merge_self label "loot" chest.toValue
  have type : (label.merge (.ofList [("loot", chest.toValue)])).string? "type" =
      label.string? "type" := Label.string?_merge_of_ne label _ (by decide)
  have described : (label.merge (.ofList [("loot", chest.toValue)])).contains "described" =
      label.contains "described" := Label.contains_merge_of_ne label _ (by decide)
  simp [workload, side, unstocked, stocked, type, described]

theorem workload_described {label : Label} (type : label.string? "type" = some "room")
    (undescribed : label.contains "described" = false) :
    (workload splits).node (describeRoom settings text label) < (workload splits).node label := by
  have described : (describeRoom settings text label).contains "described" = true := by
    rw [describeRoom, Label.contains, Label.get?_insert, if_pos rfl]
    rfl
  have role : (describeRoom settings text label).string? "role" = label.string? "role" := by
    rw [Label.string?, get?_describeRoom label (by decide) (by decide)]
    rfl
  have loot : (describeRoom settings text label).contains "loot" = label.contains "loot" := by
    rw [Label.contains, get?_describeRoom label (by decide) (by decide)]
    rfl
  simp [workload, type, undescribed, described, role, loot]

theorem lt_of_exchange {total less gain loss : Nat} (exchange : less + loss ≤ total + gain)
    (lower : gain < loss) : less < total := by
  omega

theorem workload_apply_lt (progresses : PathDepths
      (fun x => x < .ofNat settings.maxDepth.toNat → splits (x + 1) < splits x) g)
    {set : CandidateSet} {c : Candidate} (found : g.candidates? (grammar settings text) = some set)
    (drawn : c ∈ set.candidates) : (workload splits).total (g.apply c).2 < (workload splits).total g := by
  obtain ⟨tier, inGrammar, inTier, site⟩ := Graph.mem_candidates? found drawn
  unfold Graph.apply
  rcases kind_cases inGrammar inTier with kind | kind | kind | kind | kind | kind | kind
  all_goals rw [kind] at site ⊢
  · obtain ⟨m, matched, after⟩ := total_applyAt_graph (workload splits) site
    obtain ⟨undecided, above⟩ := accepts_growable.mp matched.accepted
    have next := progresses matched.edge undecided above
    exact lt_of_exchange after (workload_insertChamber _ undecided next)
  · obtain ⟨m, matched, after⟩ := total_applyAt_graph (workload splits) site
    obtain ⟨undecided, above⟩ := accepts_growable.mp matched.accepted
    have next := progresses matched.edge undecided above
    exact lt_of_exchange after (workload_forkPath _ undecided next)
  · obtain ⟨m, matched, after⟩ := total_applyAt_graph (workload splits) site
    obtain ⟨_, undecided, above⟩ := accepts_growableOutside.mp matched.accepted
    have next := progresses matched.edge undecided above
    exact lt_of_exchange after (workload_sideRoom _ undecided next rfl)
  · obtain ⟨m, matched, after⟩ := total_applyAt_graph (workload splits) site
    have undecided := accepts_undecided.mp matched.accepted
    exact lt_of_exchange after (workload_lockDoor _ undecided rfl)
  · obtain ⟨m, matched, after⟩ := total_applyAt_edge (workload splits) site
    exact lt_of_exchange (Nat.le_of_eq after) (workload_opened (accepts_undecided.mp matched.accepted))
  · obtain ⟨node, accepted, after⟩ := total_applyAt_node (workload splits) site
    obtain ⟨side, unstocked⟩ := accepts_unstocked.mp accepted
    exact lt_of_exchange (Nat.le_of_eq after) (workload_stocked side unstocked)
  · obtain ⟨node, accepted, after⟩ := total_applyAt_node (workload splits) site
    obtain ⟨type, undescribed⟩ := accepts_undescribed.mp accepted
    exact lt_of_exchange (Nat.le_of_eq after) (workload_described type undescribed)

end GraphGrammar.Dungeon
