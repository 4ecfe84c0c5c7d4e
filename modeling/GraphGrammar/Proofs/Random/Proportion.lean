import GraphGrammar.Proofs.Random.Selection
import Mathlib.Algebra.Order.BigOperators.Group.List
import Mathlib.Algebra.Order.Floor.Semiring
import Mathlib.Data.Rat.Floor
import Mathlib.Order.Interval.Finset.Nat
import Mathlib.Tactic.FieldSimp
import Mathlib.Tactic.Linarith

/-!
The shares of a weighted choice in exact arithmetic. The walk along the weights cuts the unit interval into pieces, one
for each positive weight, in order and of the length of its share. So of the draws, which are spread evenly, the number
that falls to an item differs from its share by at most one, and greater draws fall to later items.
-/

namespace GraphGrammar

instance : Weight ℚ where
  zero := 0
  isFinite _ := true

namespace Weight

open Generator (unitDraws)

def positiveSum (weights : List ℚ) : ℚ := (weights.filter (0 < ·)).sum

def sumBefore (weights : List ℚ) (i : Nat) : ℚ := positiveSum (weights.take i)

theorem positiveSum_cons (w : ℚ) (rest : List ℚ) :
    positiveSum (w :: rest) = (if 0 < w then w else 0) + positiveSum rest := by
  unfold positiveSum
  split <;> simp [*]

theorem positiveSum_nonneg (weights : List ℚ) : 0 ≤ positiveSum weights := by
  refine List.sum_nonneg fun w member => ?_
  have positive := (List.mem_filter.mp member).2
  exact le_of_lt (by simpa using positive)

theorem sumBefore_nonneg (weights : List ℚ) (i : Nat) : 0 ≤ sumBefore weights i := positiveSum_nonneg _

theorem exists_pos_of_positiveSum_pos {weights : List ℚ} (positive : 0 < positiveSum weights) :
    ∃ w ∈ weights, 0 < w := by
  by_contra! none
  have empty : weights.filter (0 < ·) = [] := by simpa using none
  rw [positiveSum, empty] at positive
  exact absurd positive (lt_irrefl _)

theorem counts_iff_pos {w : ℚ} : counts w = true ↔ 0 < w := by
  simp [counts, isFinite, zero]

theorem total_eq_positiveSum (weights : List ℚ) : total weights = positiveSum weights := by
  have sum : (weights.map effective).sum = positiveSum weights := by
    induction weights with
    | nil => rfl
    | cons w rest ih =>
      rw [List.map_cons, List.sum_cons, ih, positiveSum_cons, effective, if_congr counts_iff_pos rfl rfl]
      rfl
  exact List.sum_eq_foldl.symm.trans sum

@[simp]
theorem sumBefore_zero (weights : List ℚ) : sumBefore weights 0 = 0 := rfl

@[simp]
theorem sumBefore_cons (w : ℚ) (rest : List ℚ) (i : Nat) :
    sumBefore (w :: rest) (i + 1) = (if 0 < w then w else 0) + sumBefore rest i :=
  positiveSum_cons w _

theorem sumBefore_succ {weights : List ℚ} {i : Nat} {w : ℚ} (there : weights[i]? = some w) (positive : 0 < w) :
    sumBefore weights (i + 1) = sumBefore weights i + w := by
  rw [sumBefore, List.take_add_one, there]
  simp [sumBefore, positiveSum, positive]

theorem sumBefore_mono {weights : List ℚ} {i j : Nat} (le : i ≤ j) : sumBefore weights i ≤ sumBefore weights j := by
  obtain ⟨more, rfl⟩ := Nat.exists_eq_add_of_le le
  have rest := positiveSum_nonneg ((weights.drop i).take more)
  unfold sumBefore positiveSum at *
  rw [List.take_add, List.filter_append, List.sum_append]
  exact le_add_of_nonneg_right rest

theorem sumBefore_le (weights : List ℚ) (i : Nat) : sumBefore weights i ≤ positiveSum weights := by
  have whole : sumBefore weights (max i weights.length) = positiveSum weights := by
    rw [sumBefore, List.take_of_length_le (le_max_right _ _)]
  exact whole ▸ sumBefore_mono (le_max_left _ _)

/-- The walk stops at a position when this remains to be walked. -/
structure StopsAt (weights : List ℚ) (remainder : ℚ) (i : Nat) : Prop where
  positive : ∃ w, weights[i]? = some w ∧ 0 < w
  reached : remainder ≤ sumBefore weights (i + 1)
  passed : sumBefore weights i = 0 ∨ sumBefore weights i < remainder

theorem walk_stopsAt {weights : List ℚ} {remainder : ℚ} (position last : Nat) (some : ∃ w ∈ weights, 0 < w)
    (within : remainder ≤ positiveSum weights) :
    ∃ i, walk remainder position last weights = position + i ∧ StopsAt weights remainder i := by
  induction weights generalizing remainder position last with
  | nil => simp at some
  | cons w rest ih =>
    rw [positiveSum_cons] at within
    by_cases positive : 0 < w
    · rw [if_pos positive] at within
      rw [walk, if_pos (counts_iff_pos.mpr positive)]
      by_cases stop : remainder - w ≤ zero
      · rw [if_pos stop]
        have here : remainder - w ≤ 0 := stop
        exact ⟨0, rfl, ⟨w, rfl, positive⟩, by simp [positive]; linarith, .inl rfl⟩
      · rw [if_neg stop]
        have further : 0 < remainder - w := not_le.mp stop
        have left : remainder - w ≤ positiveSum rest := by linarith
        obtain ⟨i, same, stops⟩ :=
          ih (position + 1) position (exists_pos_of_positiveSum_pos (further.trans_le left)) left
        refine ⟨i + 1, by omega, stops.positive, ?_, .inr ?_⟩
        · have reached := stops.reached
          simp only [sumBefore_cons, if_pos positive]
          linarith
        · simp only [sumBefore_cons, if_pos positive]
          rcases stops.passed with start | passed <;> linarith
    · have later : ∃ v ∈ rest, 0 < v := by simpa [positive] using some
      rw [if_neg positive, zero_add] at within
      rw [walk, if_neg (fun counted => positive (counts_iff_pos.mp counted))]
      obtain ⟨i, same, stops⟩ := ih (position + 1) last later within
      exact ⟨i + 1, by omega, stops.positive, by simpa [positive] using stops.reached,
        by simpa [positive] using stops.passed⟩

namespace StopsAt

variable {weights : List ℚ} {remainder more : ℚ} {i j : Nat}

theorem mono (first : StopsAt weights remainder i) (second : StopsAt weights more j) (le : remainder ≤ more) :
    i ≤ j := by
  by_contra! before
  obtain ⟨w, there, positive⟩ := second.positive
  have step := sumBefore_succ there positive
  have least := sumBefore_nonneg weights j
  have between : sumBefore weights (j + 1) ≤ sumBefore weights i := sumBefore_mono (Nat.succ_le_of_lt before)
  have reached := second.reached
  rcases first.passed with start | passed <;> linarith

end StopsAt

theorem select_eq_iff {weights : List ℚ} (positive : 0 < positiveSum weights) {draw : ℚ} (unit : draw ≤ 1) {i : Nat} :
    select weights draw = i ↔ StopsAt weights (draw * positiveSum weights) i := by
  have within : draw * positiveSum weights ≤ positiveSum weights := by
    have := mul_le_mul_of_nonneg_right unit positive.le
    linarith
  obtain ⟨j, same, stops⟩ := walk_stopsAt 0 0 (exists_pos_of_positiveSum_pos positive) within
  rw [select, total_eq_positiveSum, same, Nat.zero_add]
  constructor
  · rintro rfl
    exact stops
  · intro other
    exact le_antisymm (stops.mono other le_rfl) (other.mono stops le_rfl)

/-- The whole numbers past `low` and up to `high` are as many as it is from one to the other, give or take one. Zero may
be among them where it is an end, and the greatest number may be missing. -/
theorem abs_card_Ico_sub_le {low high : ℚ} {bound : Nat} {start : Prop} [Decidable start] (nonneg : 0 ≤ low)
    (less : low < high) (most : high ≤ bound) (first : start → low = 0) :
    |((Finset.Ico (if start then 0 else ⌊low⌋₊ + 1) (min (⌊high⌋₊ + 1) bound)).card : ℚ) - (high - low)| ≤ 1 := by
  have order : (if start then 0 else ⌊low⌋₊ + 1) ≤ min (⌊high⌋₊ + 1) bound := by
    split
    · exact Nat.zero_le _
    · exact le_min (Nat.succ_le_succ (Nat.floor_mono less.le)) ((Nat.floor_lt nonneg).mpr (less.trans_le most))
  have left : low ≤ ((if start then 0 else ⌊low⌋₊ + 1 : Nat) : ℚ) ∧
      ((if start then 0 else ⌊low⌋₊ + 1 : Nat) : ℚ) ≤ low + 1 := by
    split
    · next started => simp [first started]
    · push_cast
      exact ⟨(Nat.lt_floor_add_one low).le, add_le_add_left (Nat.floor_le nonneg) 1⟩
  have right : high ≤ ((min (⌊high⌋₊ + 1) bound : Nat) : ℚ) ∧
      ((min (⌊high⌋₊ + 1) bound : Nat) : ℚ) ≤ high + 1 := by
    push_cast
    exact ⟨le_min (Nat.lt_floor_add_one high).le most,
      (min_le_left _ _).trans (add_le_add_left (Nat.floor_le (nonneg.trans less.le)) 1)⟩
  rw [Nat.card_Ico, Nat.cast_sub order, abs_le]
  constructor <;> linarith

/-- The draws that select an index, each of them given by its number of steps of 2 ^ -53. -/
def drawsOf (weights : List ℚ) (i : Nat) : Finset Nat :=
  (Finset.range unitDraws).filter fun k => select weights ((k : ℚ) / unitDraws) = i

def share (weights : List ℚ) (part : ℚ) : ℚ := unitDraws * part / positiveSum weights

theorem unitDraws_pos : (0 : ℚ) < unitDraws := Nat.cast_pos.mpr (by decide)

section

variable {weights : List ℚ} (positive : 0 < positiveSum weights)

include positive

theorem share_lt_iff {part : ℚ} {k : Nat} :
    share weights part < k ↔ part < (k : ℚ) / unitDraws * positiveSum weights := by
  rw [share, div_lt_iff₀ positive, div_mul_eq_mul_div, lt_div_iff₀ unitDraws_pos, mul_comm part]

theorem share_nonneg {part : ℚ} (nonneg : 0 ≤ part) : 0 ≤ share weights part :=
  div_nonneg (mul_nonneg unitDraws_pos.le nonneg) positive.le

theorem share_le {part : ℚ} (le : part ≤ positiveSum weights) : share weights part ≤ unitDraws := by
  rw [share, div_le_iff₀ positive]
  exact mul_le_mul_of_nonneg_left le unitDraws_pos.le

theorem select_draw_eq_iff {k i : Nat} (inside : k < unitDraws) :
    select weights ((k : ℚ) / unitDraws) = i ↔
      StopsAt weights ((k : ℚ) / unitDraws * positiveSum weights) i := by
  refine select_eq_iff positive ?_
  rw [div_le_one unitDraws_pos]
  exact Nat.cast_le.mpr inside.le

theorem select_draw_mono {k l : Nat} (le : k ≤ l) (inside : l < unitDraws) :
    select weights ((k : ℚ) / unitDraws) ≤ select weights ((l : ℚ) / unitDraws) := by
  have first := (select_draw_eq_iff positive (le.trans_lt inside)).mp rfl
  have second := (select_draw_eq_iff positive inside).mp rfl
  refine first.mono second (mul_le_mul_of_nonneg_right ?_ positive.le)
  exact div_le_div_of_nonneg_right (Nat.cast_le.mpr le) unitDraws_pos.le

/-- The draws up to the share of the items so far, without those up to the share of the items before. The draw of zero
falls to the first item. -/
theorem drawsOf_eq_Ico {i : Nat} {w : ℚ} (there : weights[i]? = some w) (counted : 0 < w) :
    drawsOf weights i = Finset.Ico
      (if sumBefore weights i = 0 then 0 else ⌊share weights (sumBefore weights i)⌋₊ + 1)
      (min (⌊share weights (sumBefore weights (i + 1))⌋₊ + 1) unitDraws) := by
  have before := share_nonneg positive (sumBefore_nonneg weights i)
  have through := share_nonneg positive (sumBefore_nonneg weights (i + 1))
  ext k
  rw [drawsOf, Finset.mem_filter, Finset.mem_range, Finset.mem_Ico, lt_min_iff, Nat.lt_succ_iff,
    Nat.le_floor_iff through]
  constructor
  · rintro ⟨inside, selected⟩
    have stops := (select_draw_eq_iff positive inside).mp selected
    refine ⟨?_, ?_, inside⟩
    · rcases stops.passed with start | passed
      · simp [start]
      · split
        · exact Nat.zero_le k
        · exact (Nat.floor_lt before).mpr ((share_lt_iff positive).mpr passed)
    · exact not_lt.mp fun above => not_lt.mpr stops.reached ((share_lt_iff positive).mp above)
  · rintro ⟨passed, reached, inside⟩
    refine ⟨inside, (select_draw_eq_iff positive inside).mpr ⟨⟨w, there, counted⟩, ?_, ?_⟩⟩
    · exact not_lt.mp fun above => not_lt.mpr reached ((share_lt_iff positive).mpr above)
    · split at passed
      · next start => exact .inl start
      · exact .inr ((share_lt_iff positive).mp ((Nat.floor_lt before).mp passed))

theorem drawsOf_eq_empty {i : Nat} (none : ∀ w, weights[i]? = some w → w ≤ 0) : drawsOf weights i = ∅ := by
  refine Finset.filter_eq_empty_iff.mpr fun k inside selected => ?_
  obtain ⟨w, there, counted⟩ := ((select_draw_eq_iff positive (Finset.mem_range.mp inside)).mp selected).positive
  exact absurd counted (not_lt.mpr (none w there))

theorem abs_card_drawsOf_sub_le {i : Nat} {w : ℚ} (there : weights[i]? = some w) (counted : 0 < w) :
    |((drawsOf weights i).card : ℚ) - share weights w| ≤ 1 := by
  have before := share_nonneg positive (sumBefore_nonneg weights i)
  have most := share_le positive (sumBefore_le weights (i + 1))
  have room : 0 < share weights w := div_pos (mul_pos unitDraws_pos counted) positive
  have length : share weights (sumBefore weights (i + 1)) - share weights (sumBefore weights i) =
      share weights w := by
    simp only [share, sumBefore_succ there counted, mul_add, add_div, add_sub_cancel_left]
  have first : sumBefore weights i = 0 → share weights (sumBefore weights i) = 0 := by
    intro start
    simp [share, start]
  rw [drawsOf_eq_Ico positive there counted, ← length]
  exact abs_card_Ico_sub_le before (by linarith) most first

end

end Weight

namespace Generator

theorem exists_fraction_iff (k : Nat) : (∃ g : Generator, g.fraction.1 = k) ↔ k < unitDraws := by
  have shift (g : Generator) : g.fraction.1 = g.word.1.toNat / 2 ^ 11 := by
    rw [fraction, UInt64.toNat_shiftRight, Nat.shiftRight_eq_div_pow]
    rfl
  have draws : unitDraws = 2 ^ 53 := rfl
  constructor
  · rintro ⟨g, rfl⟩
    have word := g.word.1.toNat_lt
    rw [shift, draws]
    omega
  · intro below
    obtain ⟨g, drawn⟩ := exists_word_eq (UInt64.ofNat (k * 2 ^ 11))
    have small : k * 2 ^ 11 < UInt64.size := by
      have size : UInt64.size = 2 ^ 64 := rfl
      omega
    refine ⟨g, ?_⟩
    rw [shift, drawn, UInt64.toNat_ofNat_of_lt' small, Nat.mul_div_cancel _ (by decide)]

end Generator

namespace Weight

open Generator (unitDraws)

/-- In exact arithmetic a weighted choice is proportional. Of the 2 ^ 53 draws the number that selects an item differs by
at most one from the share of its weight, and no draw selects an item without a positive weight. The draws that select
one index are an interval, and a greater draw never selects a lesser index. -/
theorem draws_proportional {weights : List ℚ} (positive : 0 < (weights.filter (0 < ·)).sum) :
    (isProportional weights = true ∧ ∀ k, (∃ g : Generator, g.fraction.1 = k) ↔ k < unitDraws) ∧
    (∀ i w, weights[i]? = some w → 0 < w → |((drawsOf weights i).card : ℚ) -
      unitDraws * w / (weights.filter (0 < ·)).sum| ≤ 1) ∧
    (∀ i, (∀ w, weights[i]? = some w → w ≤ 0) → (drawsOf weights i).card = 0) ∧
    (∀ i, ∃ first past, drawsOf weights i = Finset.Ico first past) ∧
    ∀ k l, k ≤ l → l < unitDraws →
      select weights ((k : ℚ) / unitDraws) ≤ select weights ((l : ℚ) / unitDraws) := by
  change 0 < positiveSum weights at positive
  refine ⟨⟨?_, Generator.exists_fraction_iff⟩, fun i w => abs_card_drawsOf_sub_le positive, ?_, ?_,
    fun k l => select_draw_mono positive⟩
  · have above : ¬total weights ≤ zero := by
      rw [total_eq_positiveSum]
      exact not_le.mpr positive
    simp [isProportional, isFinite, above]
  · intro i none
    rw [drawsOf_eq_empty positive none, Finset.card_empty]
  · intro i
    by_cases counted : ∃ w, weights[i]? = some w ∧ 0 < w
    · obtain ⟨w, there, some⟩ := counted
      exact ⟨_, _, drawsOf_eq_Ico positive there some⟩
    · refine ⟨0, 0, drawsOf_eq_empty positive fun w there => ?_⟩
      exact not_lt.mp fun some => counted ⟨w, there, some⟩

/-- A quarter of the draws, give or take one, for one item and the rest for the other, with none for those between. -/
theorem draws_proportional_past_others :
    let weights : List ℚ := [0, 1, -2, 3]
    0 < (weights.filter (0 < ·)).sum ∧ |((drawsOf weights 1).card : ℚ) - unitDraws * 1 / 4| ≤ 1 ∧
      |((drawsOf weights 3).card : ℚ) - unitDraws * 3 / 4| ≤ 1 ∧ (drawsOf weights 2).card = 0 ∧
      select weights ((0 : Nat) / unitDraws) = 1 ∧
      select weights ((0 : Nat) / unitDraws) ≤ select weights ((5 : Nat) / unitDraws) := by
  intro weights
  have four : (weights.filter (0 < ·)).sum = 4 := by decide +kernel
  have positive : 0 < (weights.filter (0 < ·)).sum := by rw [four]; norm_num
  obtain ⟨_, shares, none, _, mono⟩ := draws_proportional positive
  rw [four] at shares
  refine ⟨positive, shares 1 1 rfl (by norm_num), shares 3 3 rfl (by norm_num), none 2 ?_,
    by decide +kernel, mono 0 5 (by decide) (by decide)⟩
  rintro w ⟨⟩
  norm_num

end Weight

end GraphGrammar
