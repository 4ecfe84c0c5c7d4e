import GraphGrammar.Proofs.Engine.Step
import GraphGrammar.Proofs.Number.Rounding
import GraphGrammar.Proofs.Random.Selection

/-!
Which items can be drawn. The walk along the weights stops only where a weight counts, whatever the arithmetic rounds.
So an item with a weight that does not count is never drawn next to one with a weight that does, as long as the draw is
a walk: it is one unless the sum of the weights is too great for a double. Then every item can be drawn.
-/

namespace GraphGrammar

namespace Weight

section

variable {W : Type} [Weight W] [DecidableLE W] [DecidableLT W]

theorem walk_counts (remainder : W) (position last : Nat) (weights : List W) :
    (∃ i w, walk remainder position last weights = position + i ∧ weights[i]? = some w ∧ counts w = true) ∨
      walk remainder position last weights = last ∧ ∀ w ∈ weights, counts w = false := by
  induction weights generalizing remainder position last with
  | nil => exact .inr ⟨rfl, by simp⟩
  | cons w rest ih =>
    unfold walk
    cases here : counts w with
    | true =>
      refine .inl ?_
      simp only [if_true]
      split
      · exact ⟨0, w, rfl, rfl, here⟩
      · -- Where nothing counts any more, this weight was the last one.
        rcases ih (remainder - w) (position + 1) position with ⟨i, v, stop, there, later⟩ | ⟨stop, _⟩
        · exact ⟨i + 1, v, by omega, there, later⟩
        · exact ⟨0, w, stop, rfl, here⟩
    | false =>
      rcases ih remainder (position + 1) last with ⟨i, v, stop, there, later⟩ | ⟨stop, none⟩
      · exact .inl ⟨i + 1, v, by simp [stop]; omega, there, later⟩
      · exact .inr ⟨by simp [stop], by simpa [here] using none⟩

theorem select_counts {weights : List W} (eligible : ∃ w ∈ weights, counts w = true) (draw : W) :
    ∃ w, weights[select weights draw]? = some w ∧ counts w = true := by
  obtain ⟨v, member, some⟩ := eligible
  rcases walk_counts (draw * total weights) 0 0 weights with ⟨i, w, stop, there, here⟩ | ⟨_, none⟩
  · rw [Nat.zero_add] at stop
    exact ⟨w, by rw [select, stop, there], here⟩
  · rw [none v member] at some
    cases some

end

theorem counts_iff {w : Number} : counts w = true ↔ w.isFinite = true ∧ 0 < w.scaled := by
  change (w.isFinite && decide ((0 : Number) < w)) = true ↔ _
  rw [Bool.and_eq_true, decide_eq_true_iff]
  refine and_congr_right fun finite => ?_
  rw [Number.lt_iff Number.isFinite_zero finite, Number.scaled_zero]

theorem effective_nonneg (w : Number) : (effective w).isFinite = true ∧ 0 ≤ (effective w).scaled := by
  unfold effective
  split
  · next counted =>
    obtain ⟨finite, positive⟩ := counts_iff.mp counted
    exact ⟨finite, Int.le_of_lt positive⟩
  · exact ⟨Number.isFinite_zero, Int.le_of_eq Number.scaled_zero.symm⟩

/-- Next to a weight that counts, a draw is a walk just if the sum is finite. -/
theorem isProportional_eq {weights : List Number} (eligible : ∃ w ∈ weights, counts w = true) :
    isProportional weights = (total weights).isFinite := by
  change ((total weights).isFinite && !decide (total weights ≤ (0 : Number))) = _
  cases finite : (total weights).isFinite with
  | false => rfl
  | true =>
    obtain ⟨w, member, counted⟩ := eligible
    have terms : ∀ x ∈ weights.map effective, x.isFinite = true ∧ 0 ≤ x.scaled := by
      simpa using fun w _ => effective_nonneg w
    have some : ∃ x ∈ weights.map effective, 0 < x.scaled :=
      ⟨w, List.mem_map.mpr ⟨w, member, if_pos counted⟩, (counts_iff.mp counted).2⟩
    have positive : 0 < (total weights).scaled :=
      Number.scaled_sum_pos finite terms (Int.le_of_eq Number.scaled_zero.symm) (.inr some)
    have above : ¬total weights ≤ (0 : Number) := by
      rw [Number.le_iff finite Number.isFinite_zero, Number.scaled_zero]
      omega
    simp [above]

end Weight

namespace Generator

open Weight (counts total isProportional)

theorem weighted_of_isProportional {weights : List Number} (proportional : isProportional weights = true)
    (g : Generator) (nonempty : weights ≠ []) :
    g.weighted weights = (some (Weight.select weights g.unit.1), g.unit.2) := by
  rw [weighted, if_neg (by simpa using nonempty), if_pos proportional]

theorem weighted_of_not_isProportional {weights : List Number} (uniform : isProportional weights = false)
    (g : Generator) (nonempty : weights ≠ []) :
    (g.weighted weights).1 = some (g.index (UInt64.ofNat weights.length)).1.toNat := by
  rw [weighted, if_neg (by simpa using nonempty), uniform]
  rfl

theorem toNat_rejectionBound (count : UInt64) :
    (rejectionBound count).toNat = count.toNat * ((UInt64.size - 1) / count.toNat) := by
  have last : (0xffffffffffffffff : UInt64).toNat = UInt64.size - 1 := rfl
  have rest : ((0xffffffffffffffff : UInt64) % count).toNat = (UInt64.size - 1) % count.toNat := by
    rw [UInt64.toNat_mod, last]
  have split := Nat.div_add_mod (UInt64.size - 1) count.toNat
  rw [rejectionBound, UInt64.toNat_sub_of_le _ _ (UInt64.le_iff_toNat_le.mpr (by rw [rest, last]; exact Nat.mod_le ..)),
    rest, last]
  omega

theorem indexWithin_of_lt {count : UInt64} {g : Generator} (accepted : g.word.1 < rejectionBound count)
    {draws : Nat} (some : 0 < draws) : indexWithin count draws g = Option.some (g.word.1 % count, g.word.2) := by
  obtain ⟨draws, rfl⟩ := Nat.exists_eq_add_of_lt some
  rw [Nat.zero_add, indexWithin, if_pos accepted]

theorem isPowerOfTwo_iff {count : UInt64} (positive : 0 < count.toNat) :
    isPowerOfTwo count = true ↔ ∃ k, count.toNat = 2 ^ k := by
  have mask : (count - 1).toNat = count.toNat - 1 := UInt64.toNat_sub_of_le _ _ positive
  rw [isPowerOfTwo, beq_iff_eq, ← UInt64.toNat_inj, UInt64.toNat_and, mask]
  exact Nat.and_sub_one_eq_zero_iff_isPowerOfTwo (Nat.ne_of_gt positive)

theorem toNat_and_sub_one {count : UInt64} (positive : 0 < count.toNat) (power : isPowerOfTwo count = true)
    (word : UInt64) : (word &&& (count - 1)).toNat = word.toNat % count.toNat := by
  have mask : (count - 1).toNat = count.toNat - 1 := UInt64.toNat_sub_of_le _ _ positive
  obtain ⟨k, same⟩ := (isPowerOfTwo_iff positive).mp power
  rw [UInt64.toNat_and, mask, same, Nat.and_two_pow_sub_one_eq_mod]

theorem index_eq_word {count : UInt64} {g : Generator} (below : g.word.1 < count) :
    (index count g).1 = g.word.1 := by
  have least : g.word.1.toNat < count.toNat := UInt64.lt_iff_toNat_lt.mp below
  have positive : 0 < count.toNat := Nat.zero_lt_of_lt least
  rw [index]
  split
  · next power =>
    rw [← UInt64.toNat_inj, toNat_and_sub_one positive power]
    exact Nat.mod_eq_of_lt least
  · have accepted : g.word.1 < rejectionBound count := by
      have round : 1 ≤ (UInt64.size - 1) / count.toNat :=
        (Nat.one_le_div_iff positive).mpr (Nat.le_sub_one_of_lt count.toNat_lt)
      rw [UInt64.lt_iff_toNat_lt, toNat_rejectionBound]
      exact Nat.lt_of_lt_of_le least (Nat.le_mul_of_pos_right _ round)
    rw [indexWithin_of_lt accepted (by decide), Option.getD_some, ← UInt64.toNat_inj, UInt64.toNat_mod]
    exact Nat.mod_eq_of_lt least

theorem exists_index_eq {count i : UInt64} (below : i < count) : ∃ g, (index count g).1 = i := by
  obtain ⟨g, rfl⟩ := exists_word_eq i
  exact ⟨g, index_eq_word below⟩

def DrawsCounted (weights : List Number) (g : Generator) : Prop :=
  ∃ i w, (g.weighted weights).1 = some i ∧ weights[i]? = some w ∧ counts w = true

theorem drawsCounted_of_isFinite {weights : List Number} (eligible : ∃ w ∈ weights, counts w = true)
    (finite : (total weights).isFinite = true) (g : Generator) : g.DrawsCounted weights := by
  have nonempty : weights ≠ [] := List.ne_nil_of_mem eligible.choose_spec.1
  have walk := weighted_of_isProportional ((Weight.isProportional_eq eligible).trans finite) g nonempty
  obtain ⟨w, there, counted⟩ := Weight.select_counts eligible g.unit.1
  exact ⟨_, w, congrArg Prod.fst walk, there, counted⟩

theorem drawsCounted_of_forall {weights : List Number} (nonempty : weights ≠ [])
    (all : ∀ w ∈ weights, counts w = true) (g : Generator) : g.DrawsCounted weights := by
  obtain ⟨i, drawn, inside⟩ := g.weighted_lt nonempty
  exact ⟨i, weights[i], drawn, List.getElem?_eq_getElem inside, all _ (List.getElem_mem inside)⟩

/-- If the sum is not finite, every item is drawn from some state. -/
theorem exists_weighted_eq {weights : List Number} (eligible : ∃ w ∈ weights, counts w = true)
    (few : weights.length < UInt64.size) (infinite : (total weights).isFinite = false) {i : Nat}
    (inside : i < weights.length) : ∃ g : Generator, (g.weighted weights).1 = some i := by
  have nonempty : weights ≠ [] := List.ne_nil_of_length_pos (Nat.zero_lt_of_lt inside)
  have uniform := (Weight.isProportional_eq eligible).trans infinite
  have below : UInt64.ofNat i < UInt64.ofNat weights.length := by
    rw [UInt64.lt_iff_toNat_lt, UInt64.toNat_ofNat_of_lt' few,
      UInt64.toNat_ofNat_of_lt' (Nat.lt_trans inside few)]
    exact inside
  obtain ⟨g, drawn⟩ := exists_index_eq below
  refine ⟨g, ?_⟩
  rw [weighted_of_not_isProportional uniform g nonempty, drawn,
    UInt64.toNat_ofNat_of_lt' (Nat.lt_trans inside few)]

end Generator

namespace RunState

open Weight (counts total)

theorem draw_of_drawsCounted {candidates : List Candidate} {g : Generator}
    (drawn : g.DrawsCounted (candidates.map fun c => c.rule.weight)) :
    ∃ c ∈ candidates, counts c.rule.weight = true ∧ ∃ next, draw candidates g = (some c, next) := by
  obtain ⟨i, w, index, there, counted⟩ := drawn
  rw [List.getElem?_map, Option.map_eq_some_iff] at there
  obtain ⟨c, here, rfl⟩ := there
  refine ⟨c, List.mem_of_getElem? here, counted, (g.weighted (candidates.map fun c => c.rule.weight)).2, ?_⟩
  simp [draw, index, here]

/-- Where some weights count, all draws are sure to take such a weight just if the sum of the weights is a finite
number or every weight counts. A step over rules of these weights then chooses a rule whose weight counts. -/
theorem eligible_drawn_unless_sum_overflows {weights : List Number} (eligible : ∃ w ∈ weights, counts w = true) :
    (weights.length < UInt64.size →
      ((∀ g : Generator, g.DrawsCounted weights) ↔
        (total weights).isFinite = true ∨ ∀ w ∈ weights, counts w = true)) ∧
    ∀ (grammar : Grammar) (s : RunState) (set : CandidateSet), s.graph.candidates? grammar = some set →
      (set.candidates.map fun c : Candidate => c.rule.weight) = weights →
      ((total weights).isFinite = true ∨ ∀ w ∈ weights, counts w = true) →
        ∃ c ∈ set.candidates, counts c.rule.weight = true ∧
          (s.step grammar).1 =
            .applied c.rule.name set.tier set.candidates.length (s.graph.apply c).1 ∧
          (s.step grammar).2.graph = (s.graph.apply c).2 := by
  have sure (safe : (total weights).isFinite = true ∨ ∀ w ∈ weights, counts w = true) (g : Generator) :
      g.DrawsCounted weights := by
    rcases safe with finite | all
    · exact Generator.drawsCounted_of_isFinite eligible finite g
    · exact Generator.drawsCounted_of_forall (List.ne_nil_of_mem eligible.choose_spec.1) all g
  constructor
  · intro few
    refine ⟨fun always => ?_, sure⟩
    cases finite : (total weights).isFinite with
    | true => exact .inl rfl
    | false =>
      refine .inr fun w member => ?_
      obtain ⟨i, inside, rfl⟩ := List.mem_iff_getElem.mp member
      obtain ⟨g, drawn⟩ := Generator.exists_weighted_eq eligible few finite inside
      obtain ⟨j, v, index, there, counted⟩ := always g
      have same : i = j := Option.some.inj (drawn.symm.trans index)
      rw [← same, List.getElem?_eq_getElem inside, Option.some.injEq] at there
      rwa [there]
  · rintro grammar s set found rfl safe
    obtain ⟨c, there, counted, next, drawn⟩ := draw_of_drawsCounted (sure safe s.generator)
    rw [step_of_draw_eq_some found drawn]
    exact ⟨c, there, counted, rfl, rfl⟩

/-- Weights that count between others that do not, and a step with one rule of each weight. -/
theorem eligible_drawn_between_others :
    let weights : List Number := [0, 2, .nan, .ofInt (-1), .infinity, 1]
    let rule (w : Number) : Rule := ⟨"", w, .node .any .keep⟩
    let grammar : Grammar := ⟨[⟨"", weights.map rule⟩]⟩
    let s : RunState := ⟨((∅ : Graph).addNode ∅).2, .ofSeed 1⟩
    let set : CandidateSet := ⟨0, weights.map fun w => ⟨rule w, .node ⟨0⟩⟩⟩
    ((∃ w ∈ weights, counts w = true) ∧ (total weights).isFinite = true ∧
      s.graph.candidates? grammar = some set) ∧
    (∀ g : Generator, g.DrawsCounted weights) ∧
    ∃ c ∈ set.candidates, counts c.rule.weight = true ∧
      (s.step grammar).1 = .applied c.rule.name 0 6 (s.graph.apply c).1 ∧
      (s.step grammar).2.graph = (s.graph.apply c).2 := by
  intro weights rule grammar s set
  have eligible : ∃ w ∈ weights, counts w = true := ⟨2, by simp [weights], by decide +kernel⟩
  have finite : (total weights).isFinite = true := by decide +kernel
  have found : s.graph.candidates? grammar = some set := rfl
  obtain ⟨draws, steps⟩ := eligible_drawn_unless_sum_overflows eligible
  exact ⟨⟨eligible, finite, found⟩, (draws (by decide)).mpr (.inl finite),
    steps grammar s set found rfl (.inl finite)⟩

/-- Three weights of 1e308 count and have no finite sum. The draw then goes to an item of weight zero beside them, and
the step to a rule of weight zero. -/
theorem zero_weight_drawn_past_range :
    let large : Number := .ofNat (Nat.pow 10 308)
    let never : Rule := ⟨"never", 0, .node .any .keep⟩
    let often : Rule := ⟨"large", large, .node .any .keep⟩
    let grammar : Grammar := ⟨[⟨"", [never, often, often, often]⟩]⟩
    let s : RunState := ⟨((∅ : Graph).addNode ∅).2, .ofSeed 1⟩
    (counts large = true ∧ counts (0 : Number) = false ∧
      (total [0, large, large, large]).isFinite = false) ∧
    ((Generator.ofSeed 1).weighted [0, large, large, large]).1 = some 0 ∧
    ¬(Generator.ofSeed 1).DrawsCounted [0, large, large, large] ∧
    (s.step grammar).1 = .applied "never" 0 4 { updatedNode := some ⟨0⟩ } := by
  intro large never often grammar s
  have weights : counts large = true ∧ counts (0 : Number) = false ∧
      (total [0, large, large, large]).isFinite = false := by decide +kernel
  have drawn : ((Generator.ofSeed 1).weighted [0, large, large, large]).1 = some 0 := by decide +kernel
  refine ⟨weights, drawn, ?_, by decide +kernel⟩
  rintro ⟨i, w, index, there, counted⟩
  have first : i = 0 := Option.some.inj (index.symm.trans drawn)
  rw [first, List.getElem?_cons_zero, Option.some.injEq] at there
  rw [← there, weights.2.1] at counted
  cases counted

end RunState

end GraphGrammar
