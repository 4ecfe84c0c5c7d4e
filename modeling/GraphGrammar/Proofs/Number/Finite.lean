import GraphGrammar.Number.Basic
import Mathlib.Algebra.Group.Nat.Defs

/-!
Where arithmetic stays finite. The nearest double is finite below half a step past the largest finite
one, and a sign changes nothing about this.
-/

namespace GraphGrammar.Number

theorem exponentField_ofNat {n : Nat} (small : n < UInt64.size) :
    exponentField ⟨UInt64.ofNat n⟩ = n / fractionCount % 2048 := by
  rw [exponentField, UInt64.toNat_ofNat_of_lt' small]

theorem infinityBits_lt : infinityBits < UInt64.size := by decide

theorem isFinite_ofNat {n : Nat} (below : n < infinityBits) :
    isFinite ⟨UInt64.ofNat n⟩ = true := by
  have quotient : n / fractionCount < 2047 := Nat.div_lt_of_lt_mul (Nat.mul_comm _ _ ▸ below)
  rw [isFinite, exponentField_ofNat (Nat.lt_trans below infinityBits_lt), decide_eq_true_iff]
  exact Nat.lt_of_le_of_lt (Nat.mod_le _ _) quotient

theorem isInfinite_infinity : infinity.isInfinite = true := by decide

theorem isFinite_iff {x : Number} : x.isFinite = true ↔ x.exponentField < 2047 := decide_eq_true_iff

theorem isNaN_of_isFinite {x : Number} (finite : x.isFinite = true) : x.isNaN = false := by
  have other : x.exponentField ≠ 2047 := Nat.ne_of_lt (isFinite_iff.mp finite)
  rw [isNaN, beq_eq_false_iff_ne.mpr other, Bool.false_and]

theorem isInfinite_of_isFinite {x : Number} (finite : x.isFinite = true) :
    x.isInfinite = false := by
  have other : x.exponentField ≠ 2047 := Nat.ne_of_lt (isFinite_iff.mp finite)
  rw [isInfinite, beq_eq_false_iff_ne.mpr other, Bool.false_and]

theorem exponentField_eq (x : Number) : x.exponentField = (x.bits.toNat >>> 52) % 2 ^ 11 := by
  rw [Nat.shiftRight_eq_div_pow]
  rfl

theorem exponent_of_sign : (0x8000000000000000 : UInt64).toNat >>> 52 % 2 ^ 11 = 0 := by decide

theorem exponentField_neg (x : Number) : x.neg.exponentField = x.exponentField := by
  rw [exponentField_eq, exponentField_eq, neg, UInt64.toNat_xor, Nat.shiftRight_xor_distrib,
    Nat.xor_mod_two_pow, exponent_of_sign, Nat.xor_zero]

theorem exponentField_withSign (negative : Bool) (x : Number) :
    (withSign negative x).exponentField = x.exponentField := by
  cases negative with
  | false => rfl
  | true =>
    rw [exponentField_eq, exponentField_eq, withSign, if_pos rfl, UInt64.toNat_or,
      Nat.shiftRight_or_distrib, Nat.or_mod_two_pow, exponent_of_sign, Nat.or_zero]

theorem fractionField_withSign (negative : Bool) (x : Number) :
    (withSign negative x).fractionField = x.fractionField := by
  have mask : (0x8000000000000000 : UInt64).toNat % 2 ^ 52 = 0 := by decide
  cases negative with
  | false => rfl
  | true =>
    change (x.bits ||| 0x8000000000000000).toNat % 2 ^ 52 = x.bits.toNat % 2 ^ 52
    rw [UInt64.toNat_or, Nat.or_mod_two_pow, mask, Nat.or_zero]

theorem isFinite_neg (x : Number) : x.neg.isFinite = x.isFinite := by
  rw [isFinite, exponentField_neg, isFinite]

theorem isFinite_withSign (negative : Bool) (x : Number) :
    (withSign negative x).isFinite = x.isFinite := by
  rw [isFinite, exponentField_withSign, isFinite]

theorem isInfinite_withSign (negative : Bool) (x : Number) :
    (withSign negative x).isInfinite = x.isInfinite := by
  rw [isInfinite, exponentField_withSign, fractionField_withSign, isInfinite]

theorem roundHalfEven_le {num den bound : Nat} (le : num ≤ den * bound) :
    roundHalfEven num den ≤ bound ∨ den = 0 := by
  rcases Nat.eq_zero_or_pos den with zero | positive
  · exact .inr zero
  · refine .inl ?_
    have split := Nat.div_add_mod num den
    have quotient : num / den ≤ bound := Nat.div_le_of_le_mul le
    simp only [roundHalfEven]
    rcases Nat.lt_or_eq_of_le quotient with below | same
    · split
      · omega
      · split <;> omega
    · -- At the bound nothing is left over.
      rw [same] at split
      have rest : num % den = 0 := by omega
      exact Nat.le_of_eq (by rw [if_pos (by omega), same])

theorem roundHalfEven_lt {num den bound : Nat} (lt : 2 * num < den * (2 * bound - 1))
    (one : 1 ≤ bound) : roundHalfEven num den < bound := by
  have split := Nat.div_add_mod num den
  have expand : den * (2 * bound - 1) + den = 2 * (den * bound) := by
    rw [← Nat.mul_succ, Nat.mul_left_comm]
    exact congrArg (den * ·) (by omega)
  have quotient : num / den < bound := Nat.div_lt_of_lt_mul (by omega)
  simp only [roundHalfEven]
  by_cases last : num / den + 1 = bound
  · have rest : den * (num / den) + den = den * bound := by rw [← last, Nat.mul_succ]
    rw [if_pos (by omega)]
    exact quotient
  · split
    · exact quotient
    · split <;> omega

/-- Half the distance of the largest finite doubles: 2 ^ 970, in units of the least one. -/
def halfStep : Nat := Nat.pow 2 2044

/-- The least value that is rounded to infinity, half a step past the largest finite double. -/
def overflowUnits : Nat := halfStep * (2 * 2 ^ 53 - 1)

/-- The great powers that are compared below and the parts of zero and one, computed once. The
exponents are variables where the power shall stand as it is. -/
theorem sizes {last whole : Nat} (atLast : last = 2045) (atWhole : whole = 1022) :
    (0 < unitsPerOne ∧ 0 < halfStep ∧ unitsPerOne < halfStep ∧
      UInt64.size * unitsPerOne < 1 * overflowUnits ∧ overflowUnits.log2 < 2098) ∧
    (Nat.pow 2 last = 2 * halfStep ∧ unitsPerOne = 2 ^ 52 * Nat.pow 2 whole) ∧
    (0 : Number).signBit = false ∧ (0 : Number).magnitude = 0 ∧
    (1 : Number).scaled = unitsPerOne := by
  subst atLast atWhole
  decide +kernel

theorem unitsPerOne_pos : 0 < unitsPerOne := (sizes rfl rfl).1.1

theorem halfStep_pos : 0 < halfStep := (sizes rfl rfl).1.2.1

theorem unitsPerOne_lt_halfStep : unitsPerOne < halfStep := (sizes rfl rfl).1.2.2.1

theorem size_mul_unitsPerOne_lt : UInt64.size * unitsPerOne < 1 * overflowUnits :=
  (sizes rfl rfl).1.2.2.2.1

theorem log2_overflowUnits_lt : overflowUnits.log2 < 2098 := (sizes rfl rfl).1.2.2.2.2

theorem pow_two_eq {n : Nat} (last : n = 2045) : Nat.pow 2 n = 2 * halfStep :=
  (sizes last rfl).2.1.1

theorem unitsPerOne_eq {n : Nat} (same : n = 1022) : unitsPerOne = 2 ^ 52 * Nat.pow 2 n :=
  (sizes rfl same).2.1.2

theorem signBit_zero : (0 : Number).signBit = false := (sizes rfl rfl).2.2.1

theorem magnitude_zero : (0 : Number).magnitude = 0 := (sizes rfl rfl).2.2.2.1

theorem scaled_one : (1 : Number).scaled = unitsPerOne := (sizes rfl rfl).2.2.2.2

theorem roundHalfEven_lt_of_last {units den shift : Nat} (last : shift = 2045)
    (small : units < den * overflowUnits) :
    roundHalfEven units (den * Nat.pow 2 shift) < 2 ^ 53 := by
  rw [pow_two_eq last]
  have double (half steps : Nat) : den * (2 * half) * steps = 2 * (den * (half * steps)) := by
    rw [Nat.mul_left_comm, Nat.mul_assoc 2, Nat.mul_assoc den]
  refine roundHalfEven_lt ?_ (by decide)
  rw [double]
  exact Nat.mul_lt_mul_of_pos_left small (by decide)

theorem roundHalfEven_le_of_log {units den : Nat} (positive : 0 < den) :
    roundHalfEven units (den * Nat.pow 2 ((units / den).log2 - 52)) ≤ 2 ^ 53 := by
  have upper : units < den * 2 ^ ((units / den).log2 + 1) := by
    rw [Nat.mul_comm]
    exact (Nat.div_lt_iff_lt_mul positive).mp Nat.lt_log2_self
  generalize (units / den).log2 = level at upper ⊢
  have power : 2 ^ (level + 1) ≤ Nat.pow 2 (level - 52) * 2 ^ 53 := by
    change 2 ^ (level + 1) ≤ 2 ^ (level - 52) * 2 ^ 53
    rw [← Nat.pow_add]
    exact Nat.pow_le_pow_right (by decide) (by omega)
  have bound : units ≤ den * Nat.pow 2 (level - 52) * 2 ^ 53 := by
    rw [Nat.mul_assoc]
    exact Nat.le_trans (Nat.le_of_lt upper) (Nat.mul_le_mul_left den power)
  have nonzero : den * Nat.pow 2 (level - 52) ≠ 0 :=
    Nat.ne_of_gt (Nat.mul_pos positive (Nat.pow_pos (by decide)))
  exact (roundHalfEven_le bound).resolve_right nonzero

theorem nearest_isFinite {num den : Nat} (small : num * unitsPerOne < den * overflowUnits) :
    (nearest num den).isFinite = true := by
  have positive : 0 < den := by
    apply Nat.pos_of_ne_zero
    rintro rfl
    rw [Nat.zero_mul] at small
    exact Nat.not_lt_zero _ small
  simp only [nearest]
  generalize num * unitsPerOne = units at small ⊢
  have log : (units / den).log2 < 2098 := by
    have quotient : units / den < overflowUnits := Nat.div_lt_of_lt_mul small
    have top := log2_overflowUnits_lt
    rcases Nat.eq_zero_or_pos (units / den) with zero | nonzero
    · rw [zero]
      decide
    · have upper : units / den < 2 ^ (overflowUnits.log2 + 1) :=
        Nat.lt_trans quotient Nat.lt_log2_self
      have bound := (Nat.log2_lt (Nat.ne_of_gt nonzero)).mpr upper
      omega
  have inside := @roundHalfEven_le_of_log units den positive
  generalize (units / den).log2 = level at log inside ⊢
  apply isFinite_ofNat
  refine Nat.lt_of_le_of_lt (Nat.min_le_left _ _) ?_
  have count : fractionCount = 2 ^ 52 := rfl
  have infinite : infinityBits = 2047 * 2 ^ 52 := rfl
  rw [count, infinite]
  -- Only with the last shift does a step more reach the bits of infinity.
  by_cases last : level - 52 = 2045
  · have below := roundHalfEven_lt_of_last last small
    omega
  · omega

theorem nearest_isFinite_or_isInfinite (num den : Nat) :
    (nearest num den).isFinite = true ∨ (nearest num den).isInfinite = true := by
  simp only [nearest]
  generalize (num * unitsPerOne / den).log2 - 52 = shift
  generalize shift * fractionCount + _ = bits
  rcases Nat.lt_or_ge bits infinityBits with below | above
  · rw [Nat.min_eq_left (Nat.le_of_lt below)]
    exact .inl (isFinite_ofNat below)
  · rw [Nat.min_eq_right above]
    exact .inr isInfinite_infinity

theorem one_le_magnitude {bits : Nat} (one : 1023 * fractionCount ≤ bits)
    (bounded : bits ≤ infinityBits) : unitsPerOne ≤ magnitude ⟨UInt64.ofNat bits⟩ := by
  have count : fractionCount = 2 ^ 52 := rfl
  have infinite : infinityBits = 2047 * 2 ^ 52 := rfl
  have exponent : 1023 ≤ exponentField ⟨UInt64.ofNat bits⟩ := by
    rw [exponentField_ofNat (Nat.lt_of_le_of_lt bounded infinityBits_lt), count]
    omega
  obtain ⟨least, same⟩ : ∃ least, least = 1022 := ⟨_, rfl⟩
  rw [magnitude, if_neg (by omega), unitsPerOne_eq same]
  refine Nat.mul_le_mul (Nat.le_add_right _ _) (Nat.pow_le_pow_right (by decide) ?_)
  omega

theorem div_le_roundHalfEven (num den : Nat) : num / den ≤ roundHalfEven num den := by
  simp only [roundHalfEven]
  split
  · exact Nat.le_refl _
  · split <;> omega

theorem le_roundHalfEven_of_log {units den : Nat} (log : 52 ≤ (units / den).log2) :
    2 ^ 52 ≤ roundHalfEven units (den * Nat.pow 2 ((units / den).log2 - 52)) := by
  have nonzero : units / den ≠ 0 := by
    intro zero
    rw [zero] at log
    exact absurd log (by decide)
  have lower : 2 ^ (units / den).log2 ≤ units / den := Nat.log2_self_le nonzero
  generalize (units / den).log2 = level at log lower ⊢
  refine Nat.le_trans ?_ (div_le_roundHalfEven _ _)
  rw [← Nat.div_div_eq_div_mul]
  change 2 ^ 52 ≤ units / den / 2 ^ (level - 52)
  rw [Nat.le_div_iff_mul_le (Nat.two_pow_pos _), ← Nat.pow_add]
  exact Nat.le_trans (Nat.pow_le_pow_right (by decide) (by omega)) lower

theorem one_le_nearest {num den : Nat} (positive : 0 < den) (le : den ≤ num) :
    unitsPerOne ≤ (nearest num den).magnitude := by
  have units : unitsPerOne ≤ num * unitsPerOne / den := by
    rw [Nat.le_div_iff_mul_le positive, Nat.mul_comm]
    exact Nat.mul_le_mul_right _ le
  simp only [nearest]
  generalize num * unitsPerOne = whole at units ⊢
  have nonzero : whole / den ≠ 0 := Nat.ne_of_gt (Nat.lt_of_lt_of_le unitsPerOne_pos units)
  have log : 1074 ≤ (whole / den).log2 := by
    obtain ⟨least, same⟩ : ∃ least, least = 1022 := ⟨_, rfl⟩
    have power : 2 ^ (52 + least) ≤ whole / den := by
      rw [Nat.pow_add]
      exact unitsPerOne_eq same ▸ units
    have bound := (Nat.le_log2 nonzero).mpr power
    omega
  have steps := @le_roundHalfEven_of_log whole den (by omega)
  generalize (whole / den).log2 = level at log steps ⊢
  have count : fractionCount = 2 ^ 52 := rfl
  have infinite : infinityBits = 2047 * 2 ^ 52 := rfl
  apply one_le_magnitude
  · rw [Nat.le_min, count, infinite]
    omega
  · exact Nat.min_le_right _ _

theorem magnitude_le {x : Number} (finite : x.isFinite = true) :
    x.magnitude ≤ (2 ^ 53 - 1) * (2 * halfStep) := by
  have fraction : x.fractionField < 2 ^ 52 := Nat.mod_lt _ (by decide)
  have count : fractionCount = 2 ^ 52 := rfl
  have exponent := isFinite_iff.mp finite
  unfold magnitude
  split
  · have step : 1 ≤ 2 * halfStep := Nat.mul_pos (by decide) halfStep_pos
    refine Nat.le_trans ?_ (Nat.mul_le_mul_left _ step)
    omega
  · -- The greatest exponent stays a variable, so that the power is not computed.
    obtain ⟨last, same⟩ : ∃ last, last = 2045 := ⟨_, rfl⟩
    have power : Nat.pow 2 (x.exponentField - 1) ≤ Nat.pow 2 last :=
      Nat.pow_le_pow_right (by decide) (by omega)
    rw [pow_two_eq same] at power
    exact Nat.mul_le_mul (by omega) power

theorem magnitude_add_lt {x : Number} (finite : x.isFinite = true) {units : Nat}
    (small : units < halfStep) : x.magnitude + units < overflowUnits := by
  have bound := magnitude_le finite
  have largest (half steps : Nat) : (steps - 1) * (2 * half) + half ≤ half * (2 * steps - 1) ∨
      steps = 0 := by
    rcases steps with _ | steps
    · exact .inr rfl
    · refine .inl (Nat.le_of_eq ?_)
      have whole : 2 * (steps + 1) - 1 = 2 * steps + 1 := by omega
      rw [whole, Nat.add_sub_cancel, Nat.mul_succ, Nat.mul_left_comm, Nat.mul_left_comm half,
        Nat.mul_comm steps]
  have room := (largest halfStep (2 ^ 53)).resolve_right (by decide)
  change x.magnitude + units < halfStep * (2 * 2 ^ 53 - 1)
  exact Nat.lt_of_lt_of_le (Nat.add_lt_add_of_le_of_lt bound small) room

theorem isFinite_ofNat_number {n : Nat} (small : n < UInt64.size) : (ofNat n).isFinite = true := by
  apply nearest_isFinite
  exact Nat.lt_of_le_of_lt (Nat.mul_le_mul_right _ (Nat.le_of_lt small)) size_mul_unitsPerOne_lt

theorem isFinite_zero : (0 : Number).isFinite = true := isFinite_ofNat_number (by decide)

theorem scaled_zero : (0 : Number).scaled = 0 := by
  simp [scaled, signBit_zero, magnitude_zero]

theorem isFinite_add_one {x : Number} (finite : x.isFinite = true) : (x + 1).isFinite = true := by
  have one : (1 : Number).isFinite = true := isFinite_ofNat_number (by decide)
  change (add x 1).isFinite = true
  unfold add
  rw [isNaN_of_isFinite finite, isNaN_of_isFinite one, isInfinite_of_isFinite finite,
    isInfinite_of_isFinite one, scaled_one]
  simp only [Bool.or_self, Bool.false_eq_true, if_false]
  split
  · rw [isFinite_withSign]
    exact isFinite_zero
  · rw [isFinite_withSign]
    apply nearest_isFinite
    rw [Nat.mul_comm unitsPerOne]
    refine Nat.mul_lt_mul_of_pos_right ?_ unitsPerOne_pos
    have sum : (x.scaled + (unitsPerOne : Int)).natAbs ≤ x.magnitude + unitsPerOne := by
      unfold scaled
      split <;> omega
    exact Nat.lt_of_le_of_lt sum (magnitude_add_lt finite unitsPerOne_lt_halfStep)

theorem isFinite_mul {x y : Number} (left : x.isFinite = true) (right : y.isFinite = true)
    (bounded : (x * y).isInfinite = false) : (x * y).isFinite = true := by
  have product : x * y = withSign (x.signBit != y.signBit)
      (nearest (x.magnitude * y.magnitude) (unitsPerOne * unitsPerOne)) := by
    change mul x y = _
    unfold mul
    rw [isNaN_of_isFinite left, isNaN_of_isFinite right, isInfinite_of_isFinite left,
      isInfinite_of_isFinite right]
    simp only [Bool.or_self, Bool.false_eq_true, if_false]
  rw [product, isInfinite_withSign] at bounded
  rw [product, isFinite_withSign]
  refine (nearest_isFinite_or_isInfinite _ _).resolve_right fun infinite => ?_
  rw [infinite] at bounded
  cases bounded

theorem isFinite_div {x y : Number} (left : x.isFinite = true) (right : y.isFinite = true)
    (one : unitsPerOne ≤ y.magnitude) : (x / y).isFinite = true := by
  have nonzero : y.magnitude ≠ 0 := Nat.ne_of_gt (Nat.lt_of_lt_of_le unitsPerOne_pos one)
  have quotient : x / y = withSign (x.signBit != y.signBit) (nearest x.magnitude y.magnitude) := by
    change div x y = _
    unfold div
    rw [isNaN_of_isFinite left, isNaN_of_isFinite right, isInfinite_of_isFinite left,
      isInfinite_of_isFinite right]
    simp only [Bool.or_self, Bool.and_self, Bool.false_eq_true, if_false, if_neg nonzero]
  rw [quotient, isFinite_withSign]
  apply nearest_isFinite
  rw [Nat.mul_comm y.magnitude]
  have below : x.magnitude < overflowUnits := magnitude_add_lt left halfStep_pos
  exact Nat.lt_of_lt_of_le (Nat.mul_lt_mul_of_pos_right below unitsPerOne_pos)
    (Nat.mul_le_mul_left _ one)

end GraphGrammar.Number
