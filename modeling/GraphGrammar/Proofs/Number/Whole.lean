import GraphGrammar.Proofs.Number.Finite

/-!
Whole numbers as doubles. Those up to 2 ^ 53 are represented exactly, so that counting up by one and
comparing them is exact as well. The count goes no further.
-/

namespace GraphGrammar.Number

theorem roundHalfEven_mul_left (num den : Nat) {factor : Nat} (positive : 0 < factor) :
    roundHalfEven (factor * num) (factor * den) = roundHalfEven num den := by
  have below (a b : Nat) : 2 * (factor * a) < factor * b ↔ 2 * a < b := by
    rw [Nat.mul_left_comm]
    exact Nat.mul_lt_mul_left positive
  have above (a b : Nat) : factor * b < 2 * (factor * a) ↔ b < 2 * a := by
    rw [Nat.mul_left_comm]
    exact Nat.mul_lt_mul_left positive
  simp only [roundHalfEven, Nat.mul_div_mul_left _ _ positive, Nat.mul_mod_mul_left, below, above]

theorem roundHalfEven_mul_self (steps : Nat) {den : Nat} (positive : 0 < den) :
    roundHalfEven (steps * den) den = steps := by
  simp [roundHalfEven, positive]

theorem nearest_mul_left (num den : Nat) {factor : Nat} (positive : 0 < factor) :
    nearest (factor * num) (factor * den) = nearest num den := by
  simp only [nearest, Nat.mul_assoc, Nat.mul_div_mul_left _ _ positive,
    roundHalfEven_mul_left _ _ positive]

theorem signBit_nearest (num den : Nat) : (nearest num den).signBit = false := by
  have half : infinityBits < UInt64.size / 2 := by decide
  simp only [nearest]
  generalize (num * unitsPerOne / den).log2 - 52 = shift
  generalize shift * fractionCount + _ = bits
  have bounded : min bits infinityBits ≤ infinityBits := Nat.min_le_right _ _
  apply decide_eq_false
  rw [UInt64.toNat_ofNat_of_lt' (Nat.lt_of_le_of_lt bounded infinityBits_lt), Nat.not_le]
  exact Nat.lt_of_le_of_lt bounded half

theorem magnitude_of_steps {shift steps : Nat} (low : 2 ^ 52 ≤ steps) (high : steps < 2 ^ 53)
    (bounded : shift ≤ 2045) :
    magnitude ⟨UInt64.ofNat (shift * fractionCount + steps)⟩ = steps * Nat.pow 2 shift := by
  have count : fractionCount = 2 ^ 52 := rfl
  have size : UInt64.size = 2 ^ 64 := rfl
  have range : shift * fractionCount + steps < UInt64.size := by
    rw [count, size]
    omega
  have exponent : exponentField ⟨UInt64.ofNat (shift * fractionCount + steps)⟩ = shift + 1 := by
    rw [exponentField_ofNat range, count]
    omega
  have fraction : fractionCount +
      fractionField ⟨UInt64.ofNat (shift * fractionCount + steps)⟩ = steps := by
    rw [fractionField, UInt64.toNat_ofNat_of_lt' range, count]
    omega
  rw [magnitude, exponent, fraction, if_neg (Nat.succ_ne_zero shift), Nat.add_sub_cancel]

theorem log2_mul_two_pow {n : Nat} (nonzero : n ≠ 0) (k : Nat) :
    (n * 2 ^ k).log2 = n.log2 + k := by
  have power : n * 2 ^ k ≠ 0 := Nat.mul_ne_zero nonzero (Nat.ne_of_gt (Nat.two_pow_pos k))
  rw [Nat.log2_eq_iff power, Nat.add_right_comm, Nat.pow_add, Nat.pow_add]
  constructor
  · exact Nat.mul_le_mul_right _ (Nat.log2_self_le nonzero)
  · exact Nat.mul_lt_mul_of_pos_right Nat.lt_log2_self (Nat.two_pow_pos k)

theorem full_steps {n : Nat} (positive : 0 < n) (small : n < 2 ^ 53) :
    ∃ pad, n.log2 + pad = 52 ∧ 2 ^ 52 ≤ n * 2 ^ pad ∧ n * 2 ^ pad < 2 ^ 53 := by
  have nonzero : n ≠ 0 := Nat.ne_of_gt positive
  have log : n.log2 ≤ 52 := Nat.le_of_lt_succ ((Nat.log2_lt nonzero).mpr small)
  obtain ⟨pad, sum⟩ := Nat.exists_eq_add_of_le log
  have scaled := log2_mul_two_pow nonzero pad
  have power : n * 2 ^ pad ≠ 0 := Nat.mul_ne_zero nonzero (Nat.ne_of_gt (Nat.two_pow_pos pad))
  obtain ⟨low, high⟩ := (Nat.log2_eq_iff power).mp (scaled.trans sum.symm)
  exact ⟨pad, sum.symm, low, high⟩

/-- Up to this number all whole numbers are represented: 2 ^ 53. -/
def lastWhole : Nat := Nat.pow 2 53

/-- Both ends of the count are exact, and past the last one more makes no difference. -/
theorem count_ends : (ofNat 0).magnitude = 0 * unitsPerOne ∧
    (ofNat lastWhole).magnitude = lastWhole * unitsPerOne ∧
    ofNat lastWhole + 1 = ofNat lastWhole := by
  decide +kernel

theorem magnitude_ofNat {n : Nat} (whole : n ≤ lastWhole) :
    (ofNat n).magnitude = n * unitsPerOne := by
  rcases Nat.eq_zero_or_pos n with rfl | positive
  · exact count_ends.1
  rcases Nat.eq_or_lt_of_le whole with rfl | small
  · exact count_ends.2.1
  · change n < 2 ^ 53 at small
    obtain ⟨pad, sum, low, high⟩ := full_steps positive small
    -- The exponent of the units stays a variable, so that the power is not computed.
    obtain ⟨level, same⟩ : ∃ level, level = 1022 := ⟨_, rfl⟩
    have units : unitsPerOne = 2 ^ (52 + level) := by
      rw [Nat.pow_add]
      exact unitsPerOne_eq same
    have shift : (n * unitsPerOne / 1).log2 - 52 = n.log2 + level := by
      rw [Nat.div_one, units, log2_mul_two_pow (Nat.ne_of_gt positive)]
      omega
    have whole : n * unitsPerOne = n * 2 ^ pad * Nat.pow 2 (n.log2 + level) := by
      change _ = n * 2 ^ pad * 2 ^ (n.log2 + level)
      rw [units, Nat.mul_assoc, ← Nat.pow_add, ← sum, Nat.add_comm n.log2 pad, Nat.add_assoc]
    have steps : roundHalfEven (n * unitsPerOne) (1 * Nat.pow 2 (n.log2 + level)) = n * 2 ^ pad := by
      rw [whole, Nat.one_mul]
      exact roundHalfEven_mul_self _ (Nat.two_pow_pos _)
    have finite : (n.log2 + level) * fractionCount + n * 2 ^ pad ≤ infinityBits := by
      have count : fractionCount = 2 ^ 52 := rfl
      have infinite : infinityBits = 2047 * 2 ^ 52 := rfl
      rw [count, infinite]
      omega
    simp only [ofNat, nearest, shift, steps, Nat.min_eq_left finite]
    rw [magnitude_of_steps low high (by omega), whole]

theorem isFinite_ofNat_whole {n : Nat} (whole : n ≤ lastWhole) : (ofNat n).isFinite = true :=
  isFinite_ofNat_number (Nat.lt_of_le_of_lt whole (by decide))

theorem scaled_ofNat {n : Nat} (whole : n ≤ lastWhole) : (ofNat n).scaled = n * unitsPerOne := by
  rw [scaled, ofNat, signBit_nearest, ← ofNat, magnitude_ofNat whole]
  rfl

theorem ofNat_add_one {n : Nat} (small : n < lastWhole) : ofNat n + 1 = ofNat (n + 1) := by
  have below : n ≤ lastWhole := Nat.le_of_lt small
  have left := isFinite_ofNat_whole below
  have right : (1 : Number).isFinite = true := isFinite_ofNat_whole (by decide)
  have sum : (ofNat n).scaled + (1 : Number).scaled = ((unitsPerOne * (n + 1) : Nat) : Int) := by
    rw [scaled_ofNat below, scaled_one, Nat.mul_comm]
    push_cast
    rw [Int.add_mul, Int.one_mul]
  have positive : 0 < unitsPerOne * (n + 1) := Nat.mul_pos unitsPerOne_pos (Nat.succ_pos n)
  change add (ofNat n) 1 = ofNat (n + 1)
  unfold add
  rw [isNaN_of_isFinite left, isNaN_of_isFinite right, isInfinite_of_isFinite left,
    isInfinite_of_isFinite right, sum]
  simp only [Bool.or_self, Bool.false_eq_true, if_false]
  rw [if_neg (by omega), Int.natAbs_natCast, decide_eq_false (by omega)]
  have exact := nearest_mul_left (n + 1) 1 unitsPerOne_pos
  rw [Nat.mul_one] at exact
  exact exact

theorem le_iff {x y : Number} (left : x.isFinite = true) (right : y.isFinite = true) :
    x ≤ y ↔ x.scaled ≤ y.scaled := by
  change (!x.isNaN && !y.isNaN && decide (x.scaled ≤ y.scaled)) = true ↔ _
  rw [isNaN_of_isFinite left, isNaN_of_isFinite right]
  simp

theorem lt_iff {x y : Number} (left : x.isFinite = true) (right : y.isFinite = true) :
    x < y ↔ x.scaled < y.scaled := by
  change (!x.isNaN && !y.isNaN && decide (x.scaled < y.scaled)) = true ↔ _
  rw [isNaN_of_isFinite left, isNaN_of_isFinite right]
  simp

theorem ofNat_lt_iff {m n : Nat} (left : m ≤ lastWhole) (right : n ≤ lastWhole) :
    ofNat m < ofNat n ↔ m < n := by
  have units : (0 : Int) < unitsPerOne := Int.natCast_pos.mpr unitsPerOne_pos
  rw [lt_iff (isFinite_ofNat_whole left) (isFinite_ofNat_whole right), scaled_ofNat left,
    scaled_ofNat right]
  exact (Int.mul_lt_mul_right units).trans Int.ofNat_lt

end GraphGrammar.Number
