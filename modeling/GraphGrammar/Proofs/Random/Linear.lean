import GraphGrammar.Random.Generator
import Mathlib.Algebra.Group.Hom.End
import Mathlib.Data.Nat.Bitwise
import Mathlib.Tactic.Abel

/-!
The transition of a generator as a linear map. States are added bit by bit, and the transition keeps sums. So it can be
put into polynomials whose coefficients are bits. They are written as numbers, and then their sum is the exclusive or.
-/

namespace GraphGrammar.Generator

instance : Add Generator := ⟨fun g h => ⟨g.first ^^^ h.first, g.second ^^^ h.second⟩⟩

instance : Zero Generator := ⟨⟨0, 0⟩⟩

instance : Neg Generator := ⟨id⟩

instance : AddCommGroup Generator where
  add_assoc _ _ _ := congrArg₂ mk (UInt64.xor_assoc ..) (UInt64.xor_assoc ..)
  zero_add _ := congrArg₂ mk UInt64.zero_xor UInt64.zero_xor
  add_zero _ := congrArg₂ mk UInt64.xor_zero UInt64.xor_zero
  neg_add_cancel _ := congrArg₂ mk UInt64.xor_self UInt64.xor_self
  add_comm _ _ := congrArg₂ mk (UInt64.xor_comm ..) (UInt64.xor_comm ..)
  nsmul := nsmulRec
  zsmul := zsmulRec

theorem add_self (g : Generator) : g + g = 0 := neg_add_cancel g

theorem mk_add_mk (a b c d : UInt64) : mk a b + mk c d = mk (a ^^^ c) (b ^^^ d) := rfl

section

variable {n : UInt64} (some : 0 < n.toNat) (few : n.toNat < 64)

include some few

theorem toBitVec_rotateLeft (x : UInt64) : (rotateLeft x n).toBitVec = x.toBitVec.rotateLeft n.toNat := by
  have rest : (64 - n).toNat = 64 - n.toNat :=
    UInt64.toNat_sub_of_le _ _ (UInt64.le_iff_toNat_le.mpr (Nat.le_of_lt few))
  have left : (n.toBitVec % 64).toNat = n.toNat := Nat.mod_eq_of_lt few
  have right : ((64 - n).toBitVec % 64).toNat = 64 - n.toNat := by
    change (64 - n).toNat % 64 = _
    rw [rest]
    omega
  rw [rotateLeft, UInt64.toBitVec_or, UInt64.toBitVec_shiftLeft, UInt64.toBitVec_shiftRight, BitVec.shiftLeft_eq', left,
    BitVec.ushiftRight_eq', right, BitVec.rotateLeft_def, Nat.mod_eq_of_lt few]

theorem rotateLeft_xor (x y : UInt64) : rotateLeft (x ^^^ y) n = rotateLeft x n ^^^ rotateLeft y n := by
  rw [← UInt64.toBitVec_inj, UInt64.toBitVec_xor, toBitVec_rotateLeft some few, toBitVec_rotateLeft some few,
    toBitVec_rotateLeft some few, UInt64.toBitVec_xor]
  ext i below
  simp only [BitVec.getElem_rotateLeft, BitVec.getElem_xor]
  split <;> rfl

theorem rotateLeft_rotateLeft {m : UInt64} (whole : n.toNat + m.toNat = 64) (x : UInt64) :
    rotateLeft (rotateLeft x n) m = x := by
  have someMore : 0 < m.toNat := by omega
  have fewMore : m.toNat < 64 := by omega
  rw [← UInt64.toBitVec_inj, toBitVec_rotateLeft someMore fewMore, toBitVec_rotateLeft some few]
  ext i below
  simp only [BitVec.getElem_rotateLeft, Nat.mod_eq_of_lt few, Nat.mod_eq_of_lt fewMore]
  split <;> split
  · omega
  · congr 1; omega
  · congr 1; omega
  · omega

end

theorem xor_xor_xor_comm (a b c d : UInt64) : a ^^^ b ^^^ (c ^^^ d) = a ^^^ c ^^^ (b ^^^ d) := by
  rw [UInt64.xor_assoc, ← UInt64.xor_assoc b, UInt64.xor_comm b, UInt64.xor_assoc c, ← UInt64.xor_assoc]

theorem advance_add (g h : Generator) : (g + h).advance = g.advance + h.advance := by
  change advance ⟨g.first ^^^ h.first, g.second ^^^ h.second⟩ = _
  simp only [advance, xor_xor_xor_comm g.second, rotateLeft_xor (n := 55) (by decide) (by decide),
    rotateLeft_xor (n := 36) (by decide) (by decide), UInt64.shiftLeft_xor, mk_add_mk]
  rw [xor_xor_xor_comm (rotateLeft g.first 55), xor_xor_xor_comm (rotateLeft g.first 55 ^^^ _)]

def transition : AddMonoid.End Generator where
  toFun := advance
  map_zero' := rfl
  map_add' := advance_add

theorem transition_apply (g : Generator) : transition g = g.advance := rfl

theorem transition_pow_apply (n : Nat) (g : Generator) : (transition ^ n) g = advance^[n] g :=
  congrFun (AddMonoid.End.coe_pow _ transition n) g

/-- The polynomial in the transition whose coefficients are the bits of a number. -/
def polynomial (a : Nat) : AddMonoid.End Generator :=
  if a = 0 then 0 else (a % 2 : Nat) + transition * polynomial (a / 2)
termination_by a
decreasing_by omega

theorem end_add_self (f : AddMonoid.End Generator) : f + f = 0 := AddMonoidHom.ext fun g => add_self (f g)

@[simp]
theorem polynomial_zero : polynomial 0 = 0 := by
  rw [polynomial, if_pos rfl]

theorem polynomial_eq (a : Nat) : polynomial a = (a % 2 : Nat) + transition * polynomial (a / 2) := by
  rw [polynomial]
  split
  · next none => simp [none]
  · rfl

@[simp]
theorem polynomial_one : polynomial 1 = 1 := by
  rw [polynomial_eq]
  simp

theorem polynomial_two_mul (a : Nat) : polynomial (2 * a) = transition * polynomial a := by
  rw [polynomial_eq, Nat.mul_mod_right, Nat.cast_zero, zero_add, Nat.mul_div_cancel_left a Nat.two_pos]

theorem polynomial_mul_of_lt_two {c : Nat} (bit : c < 2) (a : Nat) :
    polynomial (c * a) = (c : AddMonoid.End Generator) * polynomial a := by
  obtain rfl | rfl : c = 0 ∨ c = 1 := by omega
  all_goals simp

/-- Coefficients are bits, so that a sum of two ones vanishes. -/
theorem cast_xor_mod_two (a b : Nat) :
    (((a ^^^ b) % 2 : Nat) : AddMonoid.End Generator) = (a % 2 : Nat) + (b % 2 : Nat) := by
  have two : (2 : AddMonoid.End Generator) = 0 := one_add_one_eq_two.symm.trans (end_add_self 1)
  rw [Nat.xor_mod_two_eq, ← Nat.cast_add]
  rcases Nat.mod_two_eq_zero_or_one a with ha | ha <;> rcases Nat.mod_two_eq_zero_or_one b with hb | hb <;>
    simp [Nat.add_mod, ha, hb, one_add_one_eq_two, two]

theorem polynomial_xor (a b : Nat) : polynomial (a ^^^ b) = polynomial a + polynomial b := by
  induction a using Nat.strongRecOn generalizing b with
  | ind a ih =>
    rcases Nat.eq_zero_or_pos a with rfl | positive
    · simp
    · rw [polynomial_eq, cast_xor_mod_two, Nat.xor_div_two, ih (a / 2) (Nat.div_lt_self positive Nat.one_lt_two),
        polynomial_eq a, polynomial_eq b, mul_add]
      abel

theorem commute_transition_polynomial (a : Nat) : Commute transition (polynomial a) := by
  induction a using Nat.strongRecOn with
  | ind a ih =>
    rcases Nat.eq_zero_or_pos a with rfl | positive
    · simp
    · rw [polynomial_eq]
      have rest := ih (a / 2) (Nat.div_lt_self positive Nat.one_lt_two)
      exact (Nat.cast_commute (a % 2) transition).symm.add_right ((Commute.refl transition).mul_right rest)

theorem commute_polynomial (a b : Nat) : Commute (polynomial a) (polynomial b) := by
  induction a using Nat.strongRecOn with
  | ind a ih =>
    rcases Nat.eq_zero_or_pos a with rfl | positive
    · simp
    · rw [polynomial_eq a]
      have rest := ih (a / 2) (Nat.div_lt_self positive Nat.one_lt_two)
      exact (Nat.cast_commute (a % 2) _).add_left ((commute_transition_polynomial b).mul_left rest)

end GraphGrammar.Generator
