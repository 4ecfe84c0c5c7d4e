import GraphGrammar.Json.Numeral
import GraphGrammar.Proofs.Number.Finite

/-!
Every number that a literal stands for is finite. A literal that is too large for a double has no number.
-/

namespace GraphGrammar.Json

open GraphGrammar.Number (isFinite_ofNat_number isFinite_neg isFinite_zero)

namespace Literal

variable {x y : Number}

theorem collect_lt (ds : List Nat) {value : Nat} (taken : Nat) (small : value < UInt64.size) :
    (collect value taken ds).1 < UInt64.size := by
  induction ds generalizing value taken with
  | nil => exact small
  | cons d rest ih =>
    unfold collect
    split
    · next more => exact ih (taken + 1) more
    · exact small

theorem significand_lt (l : Literal) : l.significand.1 < UInt64.size :=
  collect_lt l.fraction 0 (collect_lt l.whole 0 (by decide))

theorem powerOfTen_isFinite {power : Nat} (small : power ≤ greatestPower) :
    (powerOfTen power).isFinite = true ∧ Number.unitsPerOne ≤ (powerOfTen power).magnitude := by
  have positive : 0 < Nat.pow 10 power := Nat.pow_pos (by decide)
  refine ⟨Number.nearest_isFinite ?_, Number.one_le_nearest (by decide) positive⟩
  have largest : Nat.pow 10 greatestPower * Number.unitsPerOne < 1 * Number.overflowUnits := by
    decide +kernel
  have grows {n m : Nat} (le : n ≤ m) : Nat.pow 10 n ≤ Nat.pow 10 m :=
    Nat.pow_le_pow_right (by decide) le
  exact Nat.lt_of_le_of_lt (Nat.mul_le_mul_right _ (grows small)) largest

theorem scaleUp?_isFinite {power : Nat} (finite : x.isFinite = true)
    (scaled : scaleUp? x power = some y) : y.isFinite = true := by
  unfold scaleUp? at scaled
  split at scaled
  · next small =>
    simp only at scaled
    split at scaled
    · cases scaled
    · next bounded =>
      cases scaled
      exact Number.isFinite_mul finite (powerOfTen_isFinite small).1 (Bool.eq_false_iff.mpr bounded)
  · split at scaled
    · cases scaled
      exact finite
    · cases scaled

theorem scaleDown_isFinite (power : Nat) (finite : x.isFinite = true) :
    (scaleDown x power).isFinite = true := by
  fun_induction scaleDown x power with
  | case1 x power small =>
    obtain ⟨ten, one⟩ := powerOfTen_isFinite small
    exact Number.isFinite_div finite ten one
  | case2 => exact finite
  | case3 x power large nonzero ih =>
    obtain ⟨ten, one⟩ := powerOfTen_isFinite (Nat.le_refl greatestPower)
    exact ih (Number.isFinite_div finite ten one)

theorem scale?_isFinite {power : Int} (finite : x.isFinite = true) (scaled : scale? x power = some y) :
    y.isFinite = true := by
  cases power with
  | ofNat power => exact scaleUp?_isFinite finite scaled
  | negSucc power =>
    cases scaled
    exact scaleDown_isFinite _ finite

theorem magnitude?_isFinite {l : Literal} (result : l.magnitude? = some x) : x.isFinite = true := by
  have finite := isFinite_ofNat_number l.significand_lt
  unfold magnitude? at result
  cases exponent : l.exponent with
  | none =>
    rw [exponent] at result
    exact scale?_isFinite finite result
  | some signed =>
    rw [exponent] at result
    simp only at result
    split at result
    · exact scale?_isFinite finite result
    · split at result
      · rw [← Option.some.inj result]
        exact isFinite_zero
      · cases result

theorem numeral?_isFinite {l : Literal} {n : Numeral} (result : l.numeral? = some n) :
    n.toNumber.isFinite = true := by
  unfold numeral? at result
  split at result
  · cases result
    exact isFinite_ofNat_number (UInt64.toNat_lt _)
  · next value taken _ digits _ =>
    have small : value < UInt64.size := by
      have bound : (collect 0 0 l.whole).1 < UInt64.size := collect_lt l.whole 0 (by decide)
      rwa [digits] at bound
    split at result
    · cases result
      rw [Numeral.toNumber, isFinite_neg]
      exact isFinite_ofNat_number (UInt64.toNat_lt _)
    · cases result
      rw [Numeral.toNumber, isFinite_neg]
      exact isFinite_ofNat_number small
  · obtain ⟨x, double, rfl⟩ := Option.map_eq_some_iff.mp result
    have finite := magnitude?_isFinite double
    rw [Numeral.toNumber]
    split
    · rw [isFinite_neg]
      exact finite
    · exact finite

end Literal

end GraphGrammar.Json
