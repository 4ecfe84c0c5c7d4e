import GraphGrammar.Proofs.Random.Rejection
import Mathlib.Data.Int.CardIntervalMod

/-!
Draws of an index are without bias. The accepted words are those below a multiple of the count, so that reducing them
passes through all indexes the same number of times, and they are more than half of all words.
-/

namespace GraphGrammar.Generator

/-- How often the accepted words pass through the indexes. -/
def rounds (count : UInt64) : Nat :=
  (if isPowerOfTwo count then UInt64.size else UInt64.size - 1) / count.toNat

def acceptedWords (count : UInt64) : Finset Nat :=
  (Finset.range UInt64.size).filter fun n => accepts count (UInt64.ofNat n) = true

def wordsOf (count index : UInt64) : Finset Nat :=
  (acceptedWords count).filter fun n => reduce count (UInt64.ofNat n) = index

variable {count : UInt64}

theorem dvd_size_of_isPowerOfTwo (positive : 0 < count.toNat) (power : isPowerOfTwo count = true) :
    count.toNat ∣ UInt64.size := by
  obtain ⟨k, same⟩ := (isPowerOfTwo_iff positive).mp power
  have few : k < 64 := (Nat.pow_lt_pow_iff_right (by decide)).mp (same ▸ count.toNat_lt)
  rw [same]
  exact Nat.pow_dvd_pow 2 few.le

theorem toNat_mul_rounds_le (count : UInt64) : count.toNat * rounds count ≤ UInt64.size := by
  refine (Nat.mul_div_le _ _).trans ?_
  split <;> omega

/-- The words that are left out are fewer than half of all. -/
theorem size_lt_two_mul_rounds (positive : 0 < count.toNat) : UInt64.size < 2 * (count.toNat * rounds count) := by
  have size : UInt64.size = 2 ^ 64 := rfl
  unfold rounds
  cases power : isPowerOfTwo count with
  | true =>
    rw [if_pos rfl, Nat.mul_div_cancel' (dvd_size_of_isPowerOfTwo positive power)]
    omega
  | false =>
    have whole := Nat.div_add_mod (UInt64.size - 1) count.toNat
    have less := Nat.mod_lt (UInt64.size - 1) positive
    have other : count.toNat ≠ 2 ^ 63 := fun same => by
      rw [(isPowerOfTwo_iff positive).mpr ⟨63, same⟩] at power
      cases power
    have once : 1 ≤ (UInt64.size - 1) / count.toNat :=
      (Nat.one_le_div_iff positive).mpr (Nat.le_sub_one_of_lt count.toNat_lt)
    have least : count.toNat ≤ count.toNat * ((UInt64.size - 1) / count.toNat) := Nat.le_mul_of_pos_right _ once
    simp only [Bool.false_eq_true, if_false]
    omega

theorem accepts_ofNat_iff (positive : 0 < count.toNat) {n : Nat} (word : n < UInt64.size) :
    accepts count (UInt64.ofNat n) = true ↔ n < count.toNat * rounds count := by
  unfold accepts rounds
  cases power : isPowerOfTwo count with
  | true => simp [Nat.mul_div_cancel' (dvd_size_of_isPowerOfTwo positive power), word]
  | false =>
    simp [UInt64.lt_iff_toNat_lt, toNat_rejectionBound, Nat.mod_eq_of_lt word]

theorem toNat_reduce (positive : 0 < count.toNat) (word : UInt64) :
    (reduce count word).toNat = word.toNat % count.toNat := by
  unfold reduce
  split
  · next power => exact toNat_and_sub_one positive power word
  · exact UInt64.toNat_mod ..

theorem acceptedWords_eq (positive : 0 < count.toNat) :
    acceptedWords count = Finset.range (count.toNat * rounds count) := by
  ext n
  rw [acceptedWords, Finset.mem_filter, Finset.mem_range, Finset.mem_range]
  constructor
  · rintro ⟨word, accepted⟩
    exact (accepts_ofNat_iff positive word).mp accepted
  · intro below
    have word := below.trans_le (toNat_mul_rounds_le count)
    exact ⟨word, (accepts_ofNat_iff positive word).mpr below⟩

/-- Each index stands for one accepted word of every round. -/
theorem card_wordsOf {index : UInt64} (inside : index < count) : (wordsOf count index).card = rounds count := by
  have least : index.toNat < count.toNat := UInt64.lt_iff_toNat_lt.mp inside
  have positive : 0 < count.toNat := Nat.zero_lt_of_lt least
  have residues : wordsOf count index =
      (Finset.range (count.toNat * rounds count)).filter fun n => n ≡ index.toNat [MOD count.toNat] := by
    rw [wordsOf, acceptedWords_eq positive]
    refine Finset.filter_congr fun n below => ?_
    have word := (Finset.mem_range.mp below).trans_le (toNat_mul_rounds_le count)
    rw [← UInt64.toNat_inj, toNat_reduce positive, UInt64.toNat_ofNat_of_lt' word, Nat.ModEq, Nat.mod_eq_of_lt least]
  rw [residues, ← Nat.count_eq_card_filter_range, Nat.count_modEq_card _ positive, Nat.mul_mod_right,
    Nat.mul_div_cancel_left _ positive]
  simp

theorem reduce_lt (positive : 0 < count.toNat) (word : UInt64) : reduce count word < count := by
  rw [UInt64.lt_iff_toNat_lt, toNat_reduce positive]
  exact Nat.mod_lt _ positive

/-- An index is drawn below the count and without bias. It is the reduction of the first accepted word. All words are
accepted for a power of two, and those below the bound for any other count. Every index is the reduction of equally many
accepted words, and more than half of all words are accepted. -/
theorem index_uniform {count : UInt64} (positive : 0 < count) :
    (∀ g, (index count g).1 < count ∧ ∃ draws, DrawsIndex count draws g (index count g)) ∧
    (∀ word, accepts count word = true ↔ (∃ k, count.toNat = 2 ^ k) ∨ word < rejectionBound count) ∧
    (∀ word, reduce count word < count) ∧
    (∃ share, ∀ i < count, (wordsOf count i).card = share) ∧
    UInt64.size < 2 * (acceptedWords count).card := by
  have some : 0 < count.toNat := positive
  refine ⟨fun g => ⟨UInt64.lt_iff_toNat_lt.mpr (index_lt some g), ?_⟩, fun word => ?_, reduce_lt some,
    ⟨rounds count, fun i => card_wordsOf⟩, ?_⟩
  · obtain ⟨draws, _, drawn⟩ := drawsIndex_index positive g
    exact ⟨draws, drawn⟩
  · rw [accepts, Bool.or_eq_true, decide_eq_true_eq, isPowerOfTwo_iff some]
  · rw [acceptedWords_eq some, Finset.card_range]
    exact size_lt_two_mul_rounds some

/-- The least count above half of all words accepts one word for each index. -/
theorem index_uniform_above_half :
    let count : UInt64 := 0x8000000000000001
    0 < count ∧ (wordsOf count 0).card = (wordsOf count 0x8000000000000000).card ∧
      UInt64.size < 2 * (acceptedWords count).card := by
  intro count
  have positive : 0 < count := by decide
  obtain ⟨_, _, _, ⟨share, shares⟩, most⟩ := index_uniform positive
  exact ⟨positive, (shares 0 (by decide)).trans (shares _ (by decide)).symm, most⟩

end GraphGrammar.Generator
