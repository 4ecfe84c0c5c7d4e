import GraphGrammar.Random.Weighted

/-!
A weighted choice from a list with items in it always names one of them, be the weights what they may.
-/

namespace GraphGrammar

namespace Weight

variable {W : Type} [Weight W] [DecidableLE W] [DecidableLT W]

theorem walk_lt {bound : Nat} (remainder : W) {position last : Nat} {weights : List W}
    (counted : last < bound) (inside : position + weights.length ≤ bound) :
    walk remainder position last weights < bound := by
  induction weights generalizing remainder position last with
  | nil => exact counted
  | cons w rest ih =>
    rw [List.length_cons] at inside
    have next : position + 1 + rest.length ≤ bound := by omega
    unfold walk
    split
    · split
      · omega
      · exact ih _ (by omega) next
    · exact ih _ counted next

theorem select_lt {weights : List W} (nonempty : weights ≠ []) (draw : W) :
    select weights draw < weights.length :=
  walk_lt _ (List.length_pos_iff.mpr nonempty) (by omega)

end Weight

namespace Generator

theorem exists_word_eq (word : UInt64) : ∃ g : Generator, g.word.1 = word := ⟨⟨word, 0⟩, UInt64.add_zero word⟩

theorem indexWithin_lt {count : UInt64} (positive : 0 < count.toNat) {draws : Nat} {g next : Generator}
    {i : UInt64} (drawn : indexWithin count draws g = some (i, next)) : i.toNat < count.toNat := by
  induction draws generalizing g with
  | zero => cases drawn
  | succ draws ih =>
    unfold indexWithin at drawn
    split at drawn
    · cases drawn
      rw [UInt64.toNat_mod]
      exact Nat.mod_lt _ positive
    · exact ih drawn

theorem index_lt {count : UInt64} (positive : 0 < count.toNat) (g : Generator) :
    (index count g).1.toNat < count.toNat := by
  unfold index
  split
  · have one : (1 : UInt64).toNat ≤ count.toNat := positive
    have mask : (count - 1).toNat = count.toNat - 1 := UInt64.toNat_sub_of_le _ _ one
    have below : (g.word.1 &&& (count - 1)).toNat ≤ count.toNat - 1 := by
      rw [UInt64.toNat_and, mask]
      exact Nat.and_le_right
    exact Nat.lt_of_le_of_lt below (Nat.sub_lt positive (by decide))
  · cases drawn : indexWithin count stateCount g with
    | none => exact positive
    | some pair => exact indexWithin_lt positive drawn

theorem weighted_lt {weights : List Number} (nonempty : weights ≠ []) (g : Generator) :
    ∃ i, (g.weighted weights).1 = some i ∧ i < weights.length := by
  unfold weighted
  rw [if_neg (by simpa using nonempty)]
  split
  · exact ⟨_, rfl, Weight.select_lt nonempty _⟩
  · refine ⟨_, rfl, ?_⟩
    have length : 0 < weights.length := List.length_pos_iff.mpr nonempty
    have count : (UInt64.ofNat weights.length).toNat ≤ weights.length := by
      rw [UInt64.toNat_ofNat']
      exact Nat.mod_le _ _
    rcases Nat.eq_zero_or_pos (UInt64.ofNat weights.length).toNat with wrapped | positive
    · -- The length is a multiple of the number of words, so that every word is an index.
      have size : UInt64.size ≤ weights.length := by
        rw [UInt64.toNat_ofNat'] at wrapped
        exact Nat.le_of_dvd length (Nat.dvd_of_mod_eq_zero wrapped)
      exact Nat.lt_of_lt_of_le (UInt64.toNat_lt _) size
    · exact Nat.lt_of_lt_of_le (index_lt positive g) count

end Generator

end GraphGrammar
