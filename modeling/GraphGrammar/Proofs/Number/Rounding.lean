import GraphGrammar.Proofs.Number.Whole

/-!
Sums of doubles. A sum is the exact sum, rounded, and rounding never turns an order around. So one more than
a number is more than the number, as long as whole numbers are exact there; far enough below zero it is the
same number again, or one that is just as far below.
-/

namespace GraphGrammar.Number

theorem roundHalfEven_le_succ (num den : Nat) : roundHalfEven num den ≤ num / den + 1 := by
  simp only [roundHalfEven]
  split
  · omega
  · split <;> omega

theorem roundHalfEven_mono {num more : Nat} (le : num ≤ more) (den : Nat) :
    roundHalfEven num den ≤ roundHalfEven more den := by
  rcases Nat.lt_or_eq_of_le (Nat.div_le_div_right le) with less | same
  · exact Nat.le_trans (roundHalfEven_le_succ num den)
      (Nat.le_trans less (div_le_roundHalfEven more den))
  · -- With the same quotient the remainders decide.
    have split := Nat.div_add_mod num den
    have split' := Nat.div_add_mod more den
    have rest : num % den ≤ more % den := by
      rw [same] at split
      omega
    simp only [roundHalfEven, same]
    generalize more / den = quotient
    split <;> split <;> (try split) <;> (try split) <;> omega

theorem log2_mono {n m : Nat} (le : n ≤ m) : n.log2 ≤ m.log2 := by
  rcases Nat.eq_zero_or_pos n with rfl | positive
  · exact Nat.zero_le _
  · have nonzero : n ≠ 0 := Nat.ne_of_gt positive
    have other : m ≠ 0 := Nat.ne_of_gt (Nat.lt_of_lt_of_le positive le)
    exact (Nat.le_log2 other).mpr (Nat.le_trans (Nat.log2_self_le nonzero) le)

theorem bits_nearest_mono {num more den : Nat} (positive : 0 < den) (le : num ≤ more) :
    (nearest num den).bits.toNat ≤ (nearest more den).bits.toNat := by
  have units : num * unitsPerOne ≤ more * unitsPerOne := Nat.mul_le_mul_right _ le
  have log := log2_mono (Nat.div_le_div_right (c := den) units)
  have bounded (bits : Nat) : min bits infinityBits < UInt64.size :=
    Nat.lt_of_le_of_lt (Nat.min_le_right _ _) infinityBits_lt
  simp only [nearest, UInt64.toNat_ofNat_of_lt' (bounded _)]
  refine Nat.le_min.mpr ⟨Nat.le_trans (Nat.min_le_left _ _) ?_, Nat.min_le_right _ _⟩
  generalize num * unitsPerOne = low at units log ⊢
  generalize more * unitsPerOne = high at units log ⊢
  have count : fractionCount = 2 ^ 52 := rfl
  rw [count]
  rcases Nat.lt_or_eq_of_le (Nat.sub_le_sub_right log 52) with less | same
  · -- Steps are at most doubled, and the greater number has a full count of them.
    have few := @roundHalfEven_le_of_log low den positive
    have full := @le_roundHalfEven_of_log high den (by omega)
    omega
  · rw [same]
    exact Nat.add_le_add_left (roundHalfEven_mono units _) _

theorem magnitude_eq {bits : Nat} (bounded : bits ≤ infinityBits) :
    magnitude ⟨UInt64.ofNat bits⟩ = if bits / fractionCount = 0 then bits % fractionCount
      else (fractionCount + bits % fractionCount) * 2 ^ (bits / fractionCount - 1) := by
  have range : bits < UInt64.size := Nat.lt_of_le_of_lt bounded infinityBits_lt
  have exponent : exponentField ⟨UInt64.ofNat bits⟩ = bits / fractionCount := by
    have quotient : bits / fractionCount ≤ 2047 := Nat.div_le_of_le_mul (Nat.mul_comm _ _ ▸ bounded)
    rw [exponentField_ofNat range, Nat.mod_eq_of_lt (Nat.lt_succ_of_le quotient)]
  rw [magnitude, exponent, fractionField, UInt64.toNat_ofNat_of_lt' range]
  rfl

theorem magnitude_mono {x y : Number} (bounded : y.bits.toNat ≤ infinityBits)
    (le : x.bits.toNat ≤ y.bits.toNat) : x.magnitude ≤ y.magnitude := by
  have left := magnitude_eq (Nat.le_trans le bounded)
  have right := magnitude_eq bounded
  rw [UInt64.ofNat_toNat] at left right
  rw [left, right]
  generalize x.bits.toNat = low at le ⊢
  generalize y.bits.toNat = high at le ⊢
  have rest : low % fractionCount < fractionCount := Nat.mod_lt _ (by decide)
  rcases Nat.lt_or_eq_of_le (Nat.div_le_div_right (c := fractionCount) le) with less | same
  · have base : fractionCount * 2 ^ (high / fractionCount - 1) ≤
        (fractionCount + high % fractionCount) * 2 ^ (high / fractionCount - 1) :=
      Nat.mul_le_mul_right _ (Nat.le_add_right _ _)
    have power : 2 ^ (low / fractionCount) ≤ 2 ^ (high / fractionCount - 1) :=
      Nat.pow_le_pow_right (by decide) (Nat.le_sub_one_of_lt less)
    have step : fractionCount * 2 ^ (low / fractionCount) ≤
        fractionCount * 2 ^ (high / fractionCount - 1) := Nat.mul_le_mul_left _ power
    rw [if_neg (Nat.ne_of_gt (Nat.zero_lt_of_lt less))]
    refine Nat.le_trans ?_ (Nat.le_trans step base)
    split
    · exact Nat.le_trans (Nat.le_of_lt rest) (Nat.le_mul_of_pos_right _ (Nat.two_pow_pos _))
    · next nonzero =>
      obtain ⟨exponent, same⟩ := Nat.exists_eq_succ_of_ne_zero nonzero
      rw [same, Nat.succ_sub_one, Nat.succ_eq_add_one, Nat.pow_succ', ← Nat.mul_assoc]
      exact Nat.mul_le_mul_right _ (by omega)
  · have split := Nat.div_add_mod low fractionCount
    have split' := Nat.div_add_mod high fractionCount
    rw [same] at split ⊢
    have fraction : low % fractionCount ≤ high % fractionCount := by omega
    split
    · exact fraction
    · exact Nat.mul_le_mul_right _ (Nat.add_le_add_left fraction _)

theorem magnitude_nearest_mono {num more den : Nat} (positive : 0 < den) (le : num ≤ more) :
    (nearest num den).magnitude ≤ (nearest more den).magnitude := by
  refine magnitude_mono ?_ (bits_nearest_mono positive le)
  simp only [nearest]
  generalize _ + roundHalfEven _ _ = bits
  have bounded : min bits infinityBits ≤ infinityBits := Nat.min_le_right _ _
  rw [UInt64.toNat_ofNat_of_lt' (Nat.lt_of_le_of_lt bounded infinityBits_lt)]
  exact bounded

def rounded (value : Int) : Int :=
  if value < 0 then -(nearest value.natAbs unitsPerOne).magnitude
  else (nearest value.natAbs unitsPerOne).magnitude

theorem rounded_mono {value more : Int} (le : value ≤ more) : rounded value ≤ rounded more := by
  have magnitude {low high : Nat} (le : low ≤ high) :
      ((nearest low unitsPerOne).magnitude : Int) ≤ (nearest high unitsPerOne).magnitude :=
    Int.ofNat_le.mpr (magnitude_nearest_mono unitsPerOne_pos le)
  unfold rounded
  split
  · split
    · exact Int.neg_le_neg (magnitude (by omega))
    · exact Int.le_trans (Int.neg_nonpos_of_nonneg (Int.natCast_nonneg _)) (Int.natCast_nonneg _)
  · rw [if_neg (by omega)]
    exact magnitude (by omega)

theorem magnitude_withSign (negative : Bool) (x : Number) :
    (withSign negative x).magnitude = x.magnitude := by
  rw [magnitude, exponentField_withSign, fractionField_withSign, magnitude]

theorem signBit_withSign {x : Number} (positive : x.signBit = false) (negative : Bool) :
    (withSign negative x).signBit = negative := by
  cases negative with
  | false => exact positive
  | true =>
    have sign : UInt64.size / 2 = (0x8000000000000000 : UInt64).toNat := rfl
    rw [signBit, withSign, if_pos rfl, UInt64.toNat_or, sign]
    exact decide_eq_true Nat.right_le_or

theorem scaled_withSign {x : Number} (positive : x.signBit = false) (negative : Bool) :
    (withSign negative x).scaled = if negative then -(x.magnitude : Int) else x.magnitude := by
  rw [scaled, signBit_withSign positive, magnitude_withSign]

theorem rounded_small : rounded 0 = 0 ∧ rounded 1 = 1 := by decide +kernel

theorem scaled_add {x y : Number} (left : x.isFinite = true) (right : y.isFinite = true) :
    (x + y).scaled = rounded (x.scaled + y.scaled) := by
  change (add x y).scaled = _
  unfold add
  rw [isNaN_of_isFinite left, isNaN_of_isFinite right, isInfinite_of_isFinite left,
    isInfinite_of_isFinite right]
  simp only [Bool.or_self, Bool.false_eq_true, if_false]
  generalize x.scaled + y.scaled = sum
  split
  · next none =>
    rw [scaled_withSign signBit_zero, none, magnitude_zero, rounded_small.1]
    simp
  · rw [scaled_withSign (signBit_nearest ..), rounded]
    simp only [decide_eq_true_eq]

theorem isNaN_or_isInfinite {x : Number} (infinite : x.isFinite = false) :
    x.isNaN = true ∨ x.isInfinite = true := by
  have most : x.exponentField ≤ 2047 := Nat.le_of_lt_succ (Nat.mod_lt _ (by decide))
  rw [isFinite, decide_eq_false_iff_not, Nat.not_lt] at infinite
  have last : x.exponentField = 2047 := Nat.le_antisymm most infinite
  by_cases none : x.fractionField = 0 <;> simp [isNaN, isInfinite, last, none]

theorem isFinite_of_isFinite_add {x y : Number} (finite : (x + y).isFinite = true) : x.isFinite = true := by
  change (add x y).isFinite = true at finite
  have undefined : nan.isFinite = false := by decide
  cases here : x.isFinite with
  | true => rfl
  | false =>
    unfold add at finite
    rcases isNaN_or_isInfinite here with notNumber | infinite
    · simp [notNumber, undefined] at finite
    · simp only [infinite, if_true] at finite
      split at finite
      · simp [undefined] at finite
      · split at finite <;> simp [undefined, here] at finite

theorem rounded_nonneg {value : Int} (nonneg : 0 ≤ value) : 0 ≤ rounded value :=
  rounded_small.1 ▸ rounded_mono nonneg

theorem rounded_pos {value : Int} (positive : 0 < value) : 0 < rounded value :=
  Int.lt_of_lt_of_le (by decide) (rounded_small.2 ▸ rounded_mono positive : 1 ≤ rounded value)

theorem isFinite_of_isFinite_sum {terms : List Number} {start : Number}
    (finite : (terms.foldl (· + ·) start).isFinite = true) : start.isFinite = true := by
  induction terms generalizing start with
  | nil => exact finite
  | cons x rest ih => exact isFinite_of_isFinite_add (ih finite)

theorem scaled_sum_pos {terms : List Number} {start : Number}
    (finite : (terms.foldl (· + ·) start).isFinite = true)
    (nonneg : ∀ x ∈ terms, x.isFinite = true ∧ 0 ≤ x.scaled) (first : 0 ≤ start.scaled)
    (positive : 0 < start.scaled ∨ ∃ x ∈ terms, 0 < x.scaled) :
    0 < (terms.foldl (· + ·) start).scaled := by
  induction terms generalizing start with
  | nil => simpa using positive
  | cons x rest ih =>
    obtain ⟨⟨term, least⟩, later⟩ := List.forall_mem_cons.mp nonneg
    have sum := scaled_add (isFinite_of_isFinite_add (isFinite_of_isFinite_sum finite)) term
    refine ih finite later (sum ▸ rounded_nonneg (by omega)) ?_
    rw [sum]
    rcases positive with here | ⟨y, member, here⟩
    · exact .inl (rounded_pos (by omega))
    · rcases List.mem_cons.mp member with rfl | after
      · exact .inl (rounded_pos (by omega))
      · exact .inr ⟨y, after, here⟩

theorem rounded_whole {k : Int} (whole : k.natAbs ≤ lastWhole) :
    rounded (k * unitsPerOne) = k * unitsPerOne := by
  have units : (0 : Int) < unitsPerOne := Int.natCast_pos.mpr unitsPerOne_pos
  have exact' : ((nearest (k * unitsPerOne).natAbs unitsPerOne).magnitude : Int) =
      k.natAbs * unitsPerOne := by
    have same := nearest_mul_left k.natAbs 1 unitsPerOne_pos
    rw [Nat.mul_one] at same
    rw [Int.natAbs_mul, Int.natAbs_natCast, Nat.mul_comm, same, ← ofNat, magnitude_ofNat whole,
      Int.natCast_mul]
  rw [rounded, exact']
  split
  · next negative =>
    have below : k < 0 := by
      apply Int.not_le.mp
      exact fun above => Int.not_lt.mpr (Int.mul_nonneg above (Int.le_of_lt units)) negative
    rw [← Int.neg_mul, Int.ofNat_natAbs_of_nonpos (Int.le_of_lt below), Int.neg_neg]
  · next positive =>
    have above : 0 ≤ k := by
      apply Int.not_lt.mp
      exact fun below => positive (Int.mul_neg_of_neg_of_pos below units)
    rw [Int.natAbs_of_nonneg above]

theorem scaled_add_one {x : Number} (finite : x.isFinite = true) :
    (x + 1).scaled = rounded (x.scaled + unitsPerOne) := by
  have one : (1 : Number).isFinite = true := isFinite_ofNat_number (by decide)
  rw [scaled_add finite one, scaled_one]

/-- Where the distance of the doubles is two, one more is midway between two of them. -/
theorem rounded_midway :
    rounded (-(9007199254740993 * unitsPerOne)) = -(9007199254740992 * unitsPerOne) ∧
      rounded (-(9007199254740995 * unitsPerOne)) = -(9007199254740996 * unitsPerOne) := by
  decide +kernel

theorem magnitude_even {x : Number} (large : 9007199254740992 * unitsPerOne ≤ x.magnitude) :
    ∃ k, x.magnitude = k * (2 * unitsPerOne) := by
  have positive := unitsPerOne_pos
  have fraction : x.fractionField < 9007199254740992 / 2 := Nat.mod_lt _ (by decide)
  have count : fractionCount = 9007199254740992 / 2 := rfl
  unfold magnitude at large ⊢
  split at large
  · omega
  · next nonzero =>
    rw [if_neg nonzero]
    obtain ⟨level, units⟩ : ∃ level, unitsPerOne = 2 ^ level := by
      obtain ⟨least, same⟩ : ∃ least, least = 1022 := ⟨_, rfl⟩
      exact ⟨52 + least, Nat.pow_add .. ▸ unitsPerOne_eq same⟩
    rw [units] at large ⊢
    have steps : fractionCount + x.fractionField < 9007199254740992 := by omega
    have power : 2 ^ level < 2 ^ (x.exponentField - 1) := by
      refine Nat.lt_of_mul_lt_mul_left (a := 9007199254740992) (Nat.lt_of_le_of_lt large ?_)
      exact Nat.mul_lt_mul_of_pos_right steps (Nat.two_pow_pos _)
    have above : level < x.exponentField - 1 := (Nat.pow_lt_pow_iff_right (by decide)).mp power
    obtain ⟨more, sum⟩ := Nat.exists_eq_add_of_lt above
    refine ⟨(fractionCount + x.fractionField) * 2 ^ more, ?_⟩
    change (fractionCount + x.fractionField) * 2 ^ (x.exponentField - 1) = _
    rw [sum, Nat.mul_assoc, Nat.add_right_comm, Nat.pow_add, Nat.pow_succ]
    exact congrArg _ (by rw [Nat.mul_comm 2, Nat.mul_comm])

/-- Whether a number is so low that no addition of one leads out: at most -(2 ^ 53 + 4). -/
def Stalls (x : Number) : Prop := x ≤ -9007199254740996

variable {x : Number}

theorem stalls_iff (finite : x.isFinite = true) :
    x.Stalls ↔ x.scaled ≤ -(9007199254740996 * unitsPerOne) := by
  have last : (-9007199254740996 : Number).isFinite = true ∧
      (-9007199254740996 : Number).scaled = -(9007199254740996 * unitsPerOne) := by
    decide +kernel
  rw [Stalls, le_iff finite last.1, last.2]

theorem Stalls.add_one (finite : x.isFinite = true) (stalls : x.Stalls) : (x + 1).Stalls := by
  rw [stalls_iff finite] at stalls
  rw [stalls_iff (isFinite_add_one finite), scaled_add_one finite, ← rounded_midway.2]
  exact rounded_mono (by omega)

theorem le_scaled_of_not_stalls (finite : x.isFinite = true) (above : ¬x.Stalls) :
    -(9007199254740994 * unitsPerOne) ≤ x.scaled := by
  rw [stalls_iff finite] at above
  have positive := unitsPerOne_pos
  unfold scaled at above ⊢
  split
  · next negative =>
    rw [if_pos negative] at above
    rcases Nat.lt_or_ge x.magnitude (9007199254740992 * unitsPerOne) with small | large
    · omega
    · obtain ⟨k, even⟩ := magnitude_even large
      rw [even] at above ⊢
      have few : k < 4503599627370498 := by
        refine Nat.lt_of_mul_lt_mul_right (a := 2 * unitsPerOne) ?_
        omega
      have bound := Nat.mul_le_mul_right (2 * unitsPerOne) (Nat.le_of_lt_succ few)
      omega
  · omega

theorem not_stalls_add_one (finite : x.isFinite = true) (above : ¬x.Stalls) : ¬(x + 1).Stalls := by
  have low := le_scaled_of_not_stalls finite above
  have next : rounded (-(9007199254740993 * unitsPerOne)) ≤ rounded (x.scaled + unitsPerOne) :=
    rounded_mono (by omega)
  have positive := unitsPerOne_pos
  rw [stalls_iff (isFinite_add_one finite), scaled_add_one finite]
  rw [rounded_midway.1] at next
  omega

/-- Above the numbers that stall, one more is more, as long as whole numbers are exact. -/
theorem scaled_lt_add_one (finite : x.isFinite = true) (above : ¬x.Stalls)
    (below : x.scaled < 9007199254740992 * unitsPerOne) : x.scaled < (x + 1).scaled := by
  have low := le_scaled_of_not_stalls finite above
  have positive : (0 : Int) < unitsPerOne := Int.natCast_pos.mpr unitsPerOne_pos
  rw [scaled_add_one finite]
  rcases Int.lt_or_le x.scaled (-(9007199254740992 * unitsPerOne)) with under | whole
  · have next : rounded (-(9007199254740993 * unitsPerOne)) ≤ rounded (x.scaled + unitsPerOne) :=
      rounded_mono (by omega)
    rw [rounded_midway.1] at next
    omega
  · -- The least whole number above is not rounded, and not past the sum.
    generalize x.scaled = value at whole below ⊢
    have least : -9007199254740992 ≤ value / unitsPerOne :=
      Int.le_ediv_of_mul_le positive (Int.neg_mul .. ▸ whole)
    have most : value / unitsPerOne < 9007199254740992 := Int.ediv_lt_of_lt_mul positive below
    have under : value < (value / unitsPerOne + 1) * unitsPerOne :=
      Int.lt_ediv_add_one_mul_self value positive
    have floor : value / unitsPerOne * unitsPerOne ≤ value :=
      Int.ediv_mul_le value (Int.ne_of_gt positive)
    have sum : (value / unitsPerOne + 1) * unitsPerOne ≤ value + unitsPerOne := by
      rw [Int.add_mul, Int.one_mul]
      exact Int.add_le_add_right floor _
    have last : lastWhole = 9007199254740992 := rfl
    have rounds := rounded_whole (k := value / unitsPerOne + 1) (by omega)
    have next := rounded_mono sum
    rw [rounds] at next
    exact Int.lt_of_lt_of_le under next

end GraphGrammar.Number
