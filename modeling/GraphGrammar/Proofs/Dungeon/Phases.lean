import GraphGrammar.Proofs.Dungeon.Depths
import GraphGrammar.Proofs.Engine.Search

/-!
The phases of a dungeon, whatever graph it starts from: paths are split first, then locked or opened, and
rooms are furnished last. The first two tiers take undecided paths only, and no later tier makes such a path.
So where a tier is passed over once, none of its rules ever matches again.
-/

namespace GraphGrammar

def StepOutcome.tier? : StepOutcome → Option Nat
  | applied _ tier _ _ => some tier
  | exhausted => none

def StepOutcome.tiers (outcomes : List StepOutcome) : List Nat := outcomes.filterMap tier?

namespace Dungeon

variable {settings : DungeonSettings} {text : TextGenerator} {g h : Graph} {n : Nat}

/-- Whether the tier with the given number, which is one of the first two, takes paths of some depth. -/
def Takes (settings : DungeonSettings) (tier : Nat) (depth : Number) : Prop :=
  tier = 0 → depth < .ofNat settings.maxDepth.toNat

theorem tier_cases {tier : Tier} (there : (grammar settings text).tiers[n]? = some tier) :
    n = 0 ∧ tier = growTier settings ∨ n = 1 ∧ tier = lockTier settings text ∨
      n = 2 ∧ tier = furnishTier settings text := by
  match n with
  | 0 => exact .inl ⟨rfl, (Option.some.inj there).symm⟩
  | 1 => exact .inr (.inl ⟨rfl, (Option.some.inj there).symm⟩)
  | 2 => exact .inr (.inr ⟨rfl, (Option.some.inj there).symm⟩)
  | _ + 3 => cases there

theorem exists_tier (early : n < 2) : ∃ tier, (grammar settings text).tiers[n]? = some tier := by
  match n with
  | 0 => exact ⟨growTier settings, rfl⟩
  | 1 => exact ⟨lockTier settings text, rfl⟩

theorem exists_taken (early : n < 2) {tier : Tier}
    (there : (grammar settings text).tiers[n]? = some tier) (matches' : tier.MatchesIn g) :
    ∃ id edge, g.edge? id = some edge ∧ isUndecidedPath edge = true ∧ Takes settings n (depth edge) := by
  obtain ⟨rule, inTier, site, matched⟩ := matches'
  rcases tier_cases there with ⟨rfl, rfl⟩ | ⟨rfl, rfl⟩ | ⟨rfl, _⟩
  · simp only [growTier, List.mem_cons, List.not_mem_nil, or_false] at inTier
    rcases inTier with rfl | rfl | rfl
    · obtain ⟨id, edge, _, _, found, _, _, accepted, _⟩ := matched
      obtain ⟨undecided, shallow⟩ := accepts_growable.mp accepted
      exact ⟨id, edge, found, undecided, fun _ => shallow⟩
    · obtain ⟨id, edge, _, _, found, _, _, accepted, _⟩ := matched
      obtain ⟨undecided, shallow⟩ := accepts_growable.mp accepted
      exact ⟨id, edge, found, undecided, fun _ => shallow⟩
    · obtain ⟨id, edge, _, _, found, _, _, accepted, _⟩ := matched
      obtain ⟨_, undecided, shallow⟩ := accepts_growableOutside.mp accepted
      exact ⟨id, edge, found, undecided, fun _ => shallow⟩
  · simp only [lockTier, List.mem_cons, List.not_mem_nil, or_false] at inTier
    rcases inTier with rfl | rfl
    · obtain ⟨id, edge, _, _, found, _, _, accepted, _⟩ := matched
      exact ⟨id, edge, found, accepts_undecided.mp accepted, fun first => absurd first Nat.one_ne_zero⟩
    · obtain ⟨id, edge, _, _, found, _, _, accepted, _⟩ := matched
      exact ⟨id, edge, found, accepts_undecided.mp accepted, fun first => absurd first Nat.one_ne_zero⟩
  · omega

theorem matchesIn_of_taken (early : n < 2) {tier : Tier}
    (there : (grammar settings text).tiers[n]? = some tier) {id : EdgeId} {edge : Edge}
    (found : g.edge? id = some edge) (undecided : isUndecidedPath edge = true)
    (taken : Takes settings n (depth edge)) : tier.MatchesIn g := by
  rcases tier_cases there with ⟨rfl, rfl⟩ | ⟨rfl, rfl⟩ | ⟨rfl, _⟩
  · have site := site_of_edge found fun _ _ => accepts_growable.mpr ⟨undecided, taken rfl⟩
    exact ⟨_, .head _, _, Graph.mem_sites_iff.mp site⟩
  · have site := site_of_edge found fun _ _ => accepts_undecided.mpr undecided
    exact ⟨_, .head _, _, Graph.mem_sites_iff.mp site⟩
  · omega

theorem not_matchesIn_iff (early : n < 2) {tier : Tier}
    (there : (grammar settings text).tiers[n]? = some tier) :
    ¬tier.MatchesIn g ↔ PathDepths (fun x => ¬Takes settings n x) g := by
  constructor
  · exact fun none id edge found undecided taken =>
      none (matchesIn_of_taken early there found undecided taken)
  · intro none matches'
    obtain ⟨id, edge, found, undecided, taken⟩ := exists_taken early there matches'
    exact none found undecided taken

theorem splitsNone_of_mem {rule : Rule}
    (late : rule ∈ (lockTier settings text).rules ∨ rule ∈ (furnishTier settings text).rules) :
    SplitsNone rule.kind := by
  simp only [lockTier, furnishTier, List.mem_cons, List.not_mem_nil, or_false] at late
  rcases late with (rfl | rfl) | rfl | rfl
  · exact .lock settings text
  · exact .opened
  · exact .node _ _
  · exact .node _ _

/-- No undecided path has a depth that a tier before the given one takes. -/
structure Past (settings : DungeonSettings) (n : Nat) (g : Graph) : Prop where
  late : n ≤ 2
  none : ∀ i < n, PathDepths (fun x => ¬Takes settings i x) g

theorem past_zero (settings : DungeonSettings) (g : Graph) : Past settings 0 g :=
  ⟨Nat.zero_le _, fun _ none => absurd none (Nat.not_lt_zero _)⟩

theorem Past.mono {earlier : Nat} (past : Past settings n g) (le : earlier ≤ n) :
    Past settings earlier g :=
  ⟨Nat.le_trans le past.late, fun i less => past.none i (Nat.lt_of_lt_of_le less le)⟩

theorem Past.not_matchesIn (past : Past settings n g) {i : Nat} (less : i < n) {tier : Tier}
    (there : (grammar settings text).tiers[i]? = some tier) : ¬tier.MatchesIn g :=
  (not_matchesIn_iff (Nat.lt_of_lt_of_le less past.late) there).mpr (past.none i less)

section

variable {set : CandidateSet} {c : Candidate}
  (found : g.candidates? (grammar settings text) = some set)

include found

theorem Past.le_tier (past : Past settings n g) : n ≤ set.tier := by
  obtain ⟨_, tier, there, inTier, _⟩ := Graph.cascades_of_candidates? found
  exact Nat.le_of_not_lt fun less => past.not_matchesIn less there inTier

theorem pathDepths_of_lt_tier (less : n < set.tier) (early : n < 2) :
    PathDepths (fun x => ¬Takes settings n x) g := by
  have present : ∃ tier, (grammar settings text).tiers[n]? = some tier := exists_tier early
  obtain ⟨tier, there⟩ := present
  exact (not_matchesIn_iff early there).mp ((Graph.cascades_of_candidates? found).skipped n less tier there)

theorem past_apply (drawn : c ∈ set.candidates) :
    Past settings set.tier (g.apply c).2 := by
  obtain ⟨_, tier, there, same, _⟩ := Graph.candidates?_eq_some found
  rw [same] at drawn
  obtain ⟨inTier, site⟩ := Graph.mem_tierCandidates.mp drawn
  have past (late : SplitsNone c.rule.kind) (le : set.tier ≤ 2) :
      Past settings set.tier (g.apply c).2 := by
    refine ⟨le, fun i less => ?_⟩
    have before := pathDepths_of_lt_tier found less (Nat.lt_of_lt_of_le less le)
    exact before.applyAt_late late site
  rcases tier_cases there with ⟨first, _⟩ | ⟨second, rfl⟩ | ⟨third, rfl⟩
  · rw [first]
    exact past_zero ..
  · exact past (splitsNone_of_mem (.inl inTier)) (by omega)
  · exact past (splitsNone_of_mem (.inr inTier)) (by omega)

theorem Past.apply (past : Past settings n g) (drawn : c ∈ set.candidates) :
    Past settings n (g.apply c).2 :=
  (past_apply found drawn).mono (past.le_tier found)

end

theorem Past.draws {texts : List TextGenerator} (past : Past settings n g)
    (draws : Draws (texts.map (grammar settings)) g h) : Past settings n h := by
  refine draws.invariant (fun other member => ?_) past
  obtain ⟨text, _, rfl⟩ := List.mem_map.mp member
  exact fun found drawn past => past.apply found drawn

theorem Past.follow (texts : List TextGenerator) {s : RunState} (past : Past settings n s.graph) :
    (∀ tier ∈ StepOutcome.tiers (RunState.follow (texts.map (grammar settings)) s).1, n ≤ tier) ∧
      (StepOutcome.tiers (RunState.follow (texts.map (grammar settings)) s).1).Pairwise (· ≤ ·) := by
  induction texts generalizing n s with
  | nil => exact ⟨fun _ member => (nomatch member), .nil⟩
  | cons text rest ih =>
    rw [List.map_cons, RunState.follow_cons, StepOutcome.tiers, List.filterMap_cons]
    rcases RunState.step_cases (grammar settings text) s with
      ⟨outcome, same⟩ | ⟨set, c, found, drawn, outcome, graph⟩
    · rw [outcome]
      exact ih (same ▸ past)
    · have next := past_apply found drawn
      rw [← graph] at next
      obtain ⟨later, ascending⟩ := ih next
      have le := past.le_tier found
      rw [outcome]
      exact ⟨List.forall_mem_cons.mpr ⟨le, fun tier member => Nat.le_trans le (later tier member)⟩,
        .cons later ascending⟩

/-- Once a rule of some tier was applied, no rule of an earlier tier ever matches again, whatever is drawn and
whatever the text generator answers at each step. So the tiers of the steps do not go back. The graph may be
any at the start, with any labels. -/
theorem phases_do_not_return (settings : DungeonSettings) (g : Graph) :
    (∀ (before after : List TextGenerator) (text now : TextGenerator) (h k : Graph) (set : CandidateSet)
        (c : Candidate), Draws (before.map (grammar settings)) g h →
      h.candidates? (grammar settings text) = some set → c ∈ set.candidates →
      Draws (after.map (grammar settings)) (h.apply c).2 k →
      ∀ n < set.tier, ∀ tier, (grammar settings now).tiers[n]? = some tier → ¬tier.MatchesIn k) ∧
    ∀ (texts : List TextGenerator) (generator : Generator),
      (StepOutcome.tiers
        (RunState.follow (texts.map (grammar settings)) ⟨g, generator⟩).1).Pairwise (· ≤ ·) := by
  have start : Past settings 0 g := past_zero settings g
  constructor
  · intro before after text now h k set c first found drawn rest n less tier there
    have past := past_apply found drawn
    exact (past.draws rest).not_matchesIn less there
  · exact fun texts generator => (Past.follow texts (s := ⟨g, generator⟩) start).2

/-- A path whose depth is a text is split, its halves are locked or opened, and then rooms are furnished. -/
theorem phases_do_not_return_from_text_depth :
    let settings : DungeonSettings := { maxDepth := 1 }
    let g := seedGraph.modifyEdgeLabel ⟨0⟩ fun label => label.insert "depth" (.str "deep")
    let texts := List.replicate 9 TextGenerator.tagged
    let first := [TextGenerator.silent].map (grammar settings)
    let h := (RunState.follow first ⟨g, .ofSeed 2⟩).2.graph
    let tiers := StepOutcome.tiers (RunState.follow (texts.map (grammar settings)) ⟨g, .ofSeed 2⟩).1
    Draws first g h ∧
      (∃ set c, h.candidates? (grammar settings .silent) = some set ∧ c ∈ set.candidates ∧
        set.tier = 1 ∧ ¬(growTier settings).MatchesIn (h.apply c).2) ∧
      tiers = [0, 1, 1, 2, 2, 2] ∧ tiers.Pairwise (· ≤ ·) := by
  intro settings g texts first h tiers
  have going : .exhausted ∉ (RunState.follow first ⟨g, .ofSeed 2⟩).1 := by decide +kernel
  have draws : Draws first g h := draws_of_follow going
  obtain ⟨passed, ascending⟩ := phases_do_not_return settings g
  have second : (h.candidates? (grammar settings .silent)).map CandidateSet.tier = some 1 := by
    decide +kernel
  obtain ⟨set, found, tier⟩ := Option.map_eq_some_iff.mp second
  obtain ⟨c, drawn⟩ := List.exists_mem_of_ne_nil _ (Graph.candidates_ne_nil found)
  have skipped : ¬(growTier settings).MatchesIn (h.apply c).2 :=
    passed [.silent] [] .silent .silent h _ set c draws found drawn (.nil _) 0 (by omega) _ rfl
  exact ⟨draws, ⟨set, c, found, drawn, tier, skipped⟩, by decide +kernel,
    ascending texts (.ofSeed 2)⟩

end Dungeon

end GraphGrammar
