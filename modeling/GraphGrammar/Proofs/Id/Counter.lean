import GraphGrammar.Id.Allocator
import Mathlib.Data.List.Basic

/-!
Counters at the end of their range. A number below the greatest one is followed by the next, and the
greatest one by itself. A counter that is past an id is above it, unless both are the greatest number.
-/

namespace GraphGrammar

/-- The greatest number. A counter that stands at it cannot go on. -/
def lastIndex : UInt64 := 0xffffffffffffffff

def NodeId.last : NodeId := ⟨lastIndex⟩

def EdgeId.last : EdgeId := ⟨lastIndex⟩

namespace Allocator

theorem toNat_successor (n : UInt64) :
    (successor n).toNat = if n = lastIndex then n.toNat else n.toNat + 1 := by
  have sum := UInt64.toNat_add n 1
  have range := n.toNat_lt
  have one : (1 : UInt64).toNat = 1 := rfl
  by_cases last : n = lastIndex
  · subst last
    rfl
  · have below : n.toNat ≠ lastIndex.toNat := fun same => last (UInt64.toNat_inj.mp same)
    have value : lastIndex.toNat = 2 ^ 64 - 1 := rfl
    have next : (n + 1).toNat = n.toNat + 1 := by
      rw [sum, one]
      exact Nat.mod_eq_of_lt (by omega)
    have positive : n + 1 ≠ 0 := by
      intro zero
      rw [zero] at next
      cases next
    rw [successor, if_neg positive, if_neg last, next]

theorem toNat_successor_eq_min (n : UInt64) : (successor n).toNat = min (n.toNat + 1) lastIndex.toNat := by
  have range := n.toNat_lt
  have value : lastIndex.toNat = 2 ^ 64 - 1 := rfl
  rw [toNat_successor]
  split
  · next last =>
    subst last
    omega
  · next other =>
    have below : n.toNat ≠ lastIndex.toNat := fun same => other (UInt64.toNat_inj.mp same)
    omega

theorem successor_of_ne {n : UInt64} (room : n ≠ lastIndex) : successor n = n + 1 := by
  unfold successor
  split
  · next zero =>
    have sum := toNat_successor n
    rw [if_neg room, successor, if_pos zero] at sum
    omega
  · rfl

theorem lt_of_successor_le {n m : UInt64} (room : n ≠ lastIndex) (past : successor n ≤ m) : n < m := by
  have value := toNat_successor n
  rw [if_neg room] at value
  rw [UInt64.le_iff_toNat_le] at past
  rw [UInt64.lt_iff_toNat_lt]
  omega

theorem successor_le_of_lt {n m : UInt64} (lt : n < m) : successor n ≤ m := by
  have value := toNat_successor n
  rw [UInt64.lt_iff_toNat_lt] at lt
  rw [UInt64.le_iff_toNat_le]
  split at value <;> omega

theorem le_successor (n : UInt64) : n ≤ successor n := by
  have value := toNat_successor n
  rw [UInt64.le_iff_toNat_le]
  split at value <;> omega

theorem ne_of_successor_le {n m : UInt64} (room : m ≠ lastIndex) (past : successor n ≤ m) :
    n ≠ m := by
  rintro rfl
  exact UInt64.lt_irrefl n (lt_of_successor_le room past)

theorem le_max_left (n m : UInt64) : n ≤ max n m := by
  rw [UInt64.max_def]
  split
  · next le => exact le
  · exact UInt64.le_refl n

theorem le_max_right (n m : UInt64) : m ≤ max n m := by
  rw [UInt64.max_def]
  split
  · exact UInt64.le_refl m
  · next gt => exact UInt64.le_of_lt (UInt64.not_le.mp gt)

theorem max_eq_left {n m : UInt64} (le : m ≤ n) : max n m = n := by
  rw [UInt64.max_def]
  split
  · next ge => exact UInt64.le_antisymm le ge
  · rfl

end Allocator

end GraphGrammar
