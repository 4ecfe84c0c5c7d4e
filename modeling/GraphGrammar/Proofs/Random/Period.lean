import GraphGrammar.Proofs.Random.Linear
import Mathlib.Data.List.Prime
import Mathlib.Dynamics.PeriodicPts.Defs
import Mathlib.NumberTheory.LucasPrimality
import Mathlib.SetTheory.Cardinal.Finite
import Mathlib.Tactic.NormNum.Prime
import Mathlib.Tactic.ReduceModChar

/-!
The period of a generator. Its transition is a root of a polynomial of degree 128, so that each of its powers is a
polynomial of a lesser degree, which is computed by squaring. The power to 2 ^ 128 - 1 is the identity. No power to this
number divided by one of its primes has a fixed point other than zero. So a state other than zero comes back after
2 ^ 128 - 1 draws and not before, and on its way it passes all other states but zero.
-/

namespace GraphGrammar.Generator

def characteristic : Nat := 0x100653ced7f29f88a5fd66762f0e1c001

/-- The value of a polynomial of at most the given number of coefficients at the transition. -/
def evaluate : Nat → Nat → Generator → Generator
  | 0, _, _ => 0
  | width + 1, a, g => (if a % 2 = 1 then g else 0) + evaluate width (a / 2) g.advance

theorem polynomial_apply {width a : Nat} (small : a < 2 ^ width) (g : Generator) :
    polynomial a g = evaluate width a g := by
  induction width generalizing a g with
  | zero =>
    have none : a = 0 := by simpa using small
    simp [none, evaluate]
  | succ width ih =>
    have half : a / 2 < 2 ^ width := by
      rw [Nat.pow_succ] at small
      omega
    have first : ((a % 2 : Nat) : AddMonoid.End Generator) g = if a % 2 = 1 then g else 0 := by
      rcases Nat.mod_two_eq_zero_or_one a with bit | bit <;> simp [bit]
    rw [polynomial_eq, (commute_transition_polynomial _).eq, evaluate, ← first, ← ih half]
    rfl

theorem xor_two_pow_lt {n width : Nat} (least : 2 ^ width ≤ n) (small : n < 2 ^ (width + 1)) :
    n ^^^ 2 ^ width < 2 ^ width := by
  have highest := Nat.testBit_of_two_pow_le_and_two_pow_add_one_gt least small
  refine Nat.lt_pow_two_of_testBit _ fun i above => ?_
  rw [Nat.testBit_xor, Nat.testBit_two_pow]
  by_cases same : width = i
  · simp [← same, highest]
  · have further : width + 1 ≤ i := by omega
    have beyond := Nat.testBit_lt_two_pow (Nat.lt_of_lt_of_le small (Nat.pow_le_pow_right Nat.two_pos further))
    simp [same, beyond]

/-- An additive map that is zero at each bit of the first word is zero at every first word. -/
theorem apply_first_eq_zero {f : AddMonoid.End Generator} (bits : ∀ j < 64, f ⟨UInt64.ofNat (2 ^ j), 0⟩ = 0)
    (a : UInt64) : f ⟨a, 0⟩ = 0 := by
  have below (width : Nat) (inside : width ≤ 64) : ∀ n < 2 ^ width, f ⟨UInt64.ofNat n, 0⟩ = 0 := by
    induction width with
    | zero =>
      intro n small
      obtain rfl : n = 0 := by simpa using small
      exact map_zero f
    | succ width ih =>
      intro n small
      by_cases lower : n < 2 ^ width
      · exact ih (by omega) n lower
      · have split : (⟨UInt64.ofNat n, 0⟩ : Generator) =
            ⟨UInt64.ofNat (n ^^^ 2 ^ width), 0⟩ + ⟨UInt64.ofNat (2 ^ width), 0⟩ := by
          rw [mk_add_mk, ← UInt64.ofNat_xor, Nat.xor_assoc, Nat.xor_self, Nat.xor_zero, UInt64.xor_zero]
        have rest := ih (by omega) _ (xor_two_pow_lt (Nat.le_of_not_lt lower) small)
        rw [split, map_add, rest, bits width (by omega), add_zero]
  have whole := below 64 le_rfl a.toNat a.toNat_lt
  rwa [UInt64.ofNat_toNat] at whole

theorem advance_first (a : UInt64) :
    advance ⟨a, 0⟩ = ⟨rotateLeft a 55 ^^^ a ^^^ (a <<< 14), 0⟩ + ⟨0, rotateLeft a 36⟩ := by
  rw [advance, UInt64.zero_xor, mk_add_mk, UInt64.xor_zero, UInt64.zero_xor]

/-- A map that commutes with the transition is zero if it is so at each bit of the first word. -/
theorem eq_zero_of_bits {f : AddMonoid.End Generator} (commute : Commute transition f)
    (bits : ∀ j < 64, f ⟨UInt64.ofNat (2 ^ j), 0⟩ = 0) : f = 0 := by
  have first := apply_first_eq_zero bits
  have second (b : UInt64) : f ⟨0, b⟩ = 0 := by
    obtain ⟨a, rfl⟩ : ∃ a, rotateLeft a 36 = b := ⟨_, rotateLeft_rotateLeft (n := 28) (by decide) (by decide) rfl b⟩
    have image : f (advance ⟨a, 0⟩) = 0 := by
      have swap := DFunLike.congr_fun commute.eq ⟨a, 0⟩
      rw [AddMonoid.End.coe_mul, AddMonoid.End.coe_mul, Function.comp_apply, Function.comp_apply, first, map_zero,
        transition_apply] at swap
      exact swap.symm
    rwa [advance_first, map_add, first, zero_add] at image
  ext1 g
  have split : g = ⟨g.first, 0⟩ + ⟨0, g.second⟩ := by rw [mk_add_mk, UInt64.xor_zero, UInt64.zero_xor]
  rw [split, map_add, first, second]
  rfl

theorem polynomial_characteristic : polynomial characteristic = 0 := by
  have values : ∀ j < 64, evaluate 129 characteristic ⟨UInt64.ofNat (2 ^ j), 0⟩ = 0 := by decide +kernel
  have small : characteristic < 2 ^ 129 := by decide
  exact eq_zero_of_bits (commute_transition_polynomial _) fun j inside =>
    (polynomial_apply small _).trans (values j inside)

/-- A polynomial times the transition, reduced by the characteristic polynomial. -/
def shift (a : Nat) : Nat := 2 * a ^^^ (a >>> 127) % 2 * characteristic

theorem polynomial_shift (a : Nat) : polynomial (shift a) = transition * polynomial a := by
  rw [shift, polynomial_xor, polynomial_two_mul, polynomial_mul_of_lt_two (Nat.mod_lt _ Nat.two_pos),
    polynomial_characteristic, mul_zero, add_zero]

def timesWithin : Nat → Nat → Nat → Nat
  | 0, _, _ => 0
  | width + 1, a, b => a % 2 * b ^^^ shift (timesWithin width (a / 2) b)

def times (a b : Nat) : Nat := timesWithin (a.log2 + 1) a b

theorem polynomial_timesWithin {width a : Nat} (small : a < 2 ^ width) (b : Nat) :
    polynomial (timesWithin width a b) = polynomial a * polynomial b := by
  induction width generalizing a with
  | zero =>
    have none : a = 0 := by simpa using small
    simp [none, timesWithin]
  | succ width ih =>
    have half : a / 2 < 2 ^ width := by
      rw [Nat.pow_succ] at small
      omega
    rw [timesWithin, polynomial_xor, polynomial_mul_of_lt_two (Nat.mod_lt _ Nat.two_pos), polynomial_shift, ih half,
      polynomial_eq a, add_mul, mul_assoc]

theorem polynomial_times (a b : Nat) : polynomial (times a b) = polynomial a * polynomial b :=
  polynomial_timesWithin Nat.lt_log2_self b

def powerWithin : Nat → Nat → Nat
  | 0, _ => 1
  | width + 1, n =>
    let half := powerWithin width (n / 2)
    let square := times half half
    if n % 2 = 1 then shift square else square

def power (n : Nat) : Nat := powerWithin (n.log2 + 1) n

theorem polynomial_powerWithin {width n : Nat} (small : n < 2 ^ width) :
    polynomial (powerWithin width n) = transition ^ n := by
  induction width generalizing n with
  | zero =>
    have none : n = 0 := by simpa using small
    simp [none, powerWithin]
  | succ width ih =>
    have half : n / 2 < 2 ^ width := by
      rw [Nat.pow_succ] at small
      omega
    have square : polynomial (times (powerWithin width (n / 2)) (powerWithin width (n / 2))) =
        transition ^ (2 * (n / 2)) := by
      rw [polynomial_times, ih half, ← pow_add, two_mul]
    rw [powerWithin]
    split
    · next odd =>
      rw [polynomial_shift, square, ← pow_succ']
      congr 1
      omega
    · next even =>
      rw [square]
      congr 1
      omega

theorem polynomial_power (n : Nat) : polynomial (power n) = transition ^ n :=
  polynomial_powerWithin Nat.lt_log2_self

def period : Nat := 2 ^ 128 - 1

def periodPrimes : List Nat := [3, 5, 17, 257, 641, 65537, 274177, 6700417, 67280421310721]

theorem prod_periodPrimes : periodPrimes.prod = period := by norm_num [periodPrimes, period]

theorem mem_of_prime_dvd_prod {primes : List Nat} (all : ∀ p ∈ primes, p.Prime) {q : Nat} (prime : q.Prime)
    (divides : q ∣ primes.prod) : q ∈ primes :=
  mem_list_primes_of_dvd_prod prime.prime (fun p member => (all p member).prime) divides

/-- The greatest of the primes, by the order of 3 modulo it. -/
theorem prime_of_order : Nat.Prime 67280421310721 := by
  have returns : (3 : ZMod 67280421310721) ^ (67280421310721 - 1) = 1 := by reduce_mod_char
  refine lucas_primality _ 3 returns fun q prime divides => ?_
  have whole : 67280421310721 - 1 = [2, 2, 2, 2, 2, 2, 2, 2, 5, 47, 373, 2998279].prod := by norm_num
  have all : ∀ p ∈ [2, 2, 2, 2, 2, 2, 2, 2, 5, 47, 373, 2998279], p.Prime := by
    simp only [List.forall_mem_cons]
    norm_num
  rw [whole] at divides
  have factor : q = 2 ∨ q = 5 ∨ q = 47 ∨ q = 373 ∨ q = 2998279 := by
    simpa using mem_of_prime_dvd_prod all prime divides
  clear whole
  rcases factor with rfl | rfl | rfl | rfl | rfl
  all_goals
    norm_num
    reduce_mod_char
    decide

theorem prime_of_mem_periodPrimes : ∀ p ∈ periodPrimes, p.Prime := by
  have small : ∀ p ∈ [3, 5, 17, 257, 641, 65537, 274177, 6700417], p.Prime := by
    simp only [List.forall_mem_cons]
    norm_num
  intro p member
  rcases List.mem_append.mp (show p ∈ [3, 5, 17, 257, 641, 65537, 274177, 6700417] ++ [67280421310721] from member)
    with first | last
  · exact small p first
  · exact List.mem_singleton.mp last ▸ prime_of_order

theorem transition_pow_period : transition ^ period = 1 := by
  have value : power period = 1 := by decide +kernel
  rw [← polynomial_power, value, polynomial_one]

/-- The product of what the powers to the greatest proper divisors differ from the identity by. -/
def differences : List Nat → Nat
  | [] => 1
  | p :: rest => times (power (period / p) ^^^ 1) (differences rest)

theorem polynomial_differences_eq_zero {primes : List Nat} {p : Nat} (member : p ∈ primes) {g : Generator}
    (fixed : (transition ^ (period / p)) g = g) : polynomial (differences primes) g = 0 := by
  induction primes with
  | nil => cases member
  | cons q rest ih =>
    rw [differences, polynomial_times]
    rcases List.mem_cons.mp member with rfl | later
    · have zero : polynomial (power (period / p) ^^^ 1) g = 0 := by
        rw [polynomial_xor, polynomial_power, polynomial_one]
        exact (congrArg (· + g) fixed).trans (add_self g)
      rw [(commute_polynomial _ _).eq, AddMonoid.End.coe_mul, Function.comp_apply, zero, map_zero]
    · rw [AddMonoid.End.coe_mul, Function.comp_apply, ih later, map_zero]

theorem eq_zero_of_fixed {p : Nat} (member : p ∈ periodPrimes) {g : Generator}
    (fixed : (transition ^ (period / p)) g = g) : g = 0 := by
  -- The product has an inverse, so that zero is its only zero.
  have inverse : times 0x2e6a2ab2058f7a71f43a7a0813946d29 (differences periodPrimes) = 1 := by decide +kernel
  have whole := congrArg (fun a => polynomial a g) inverse
  simp only [polynomial_one] at whole
  rw [polynomial_times, AddMonoid.End.coe_mul, Function.comp_apply, polynomial_differences_eq_zero member fixed,
    map_zero] at whole
  exact whole.symm

theorem minimalPeriod_advance {g : Generator} (nonzero : g ≠ 0) : Function.minimalPeriod advance g = period := by
  have returns : Function.IsPeriodicPt advance period g := by
    rw [Function.IsPeriodicPt, Function.IsFixedPt, ← transition_pow_apply, transition_pow_period]
    rfl
  obtain ⟨factor, whole⟩ := returns.minimalPeriod_dvd
  by_contra other
  have several : factor ≠ 1 := by
    rintro rfl
    exact other (by rw [whole, mul_one])
  obtain ⟨p, prime, divides⟩ := Nat.exists_prime_and_dvd several
  obtain ⟨rest, rfl⟩ := divides
  have member : p ∈ periodPrimes := by
    refine mem_of_prime_dvd_prod prime_of_mem_periodPrimes prime ?_
    rw [prod_periodPrimes, whole]
    exact ⟨Function.minimalPeriod advance g * rest, by ring⟩
  have shorter : period / p = Function.minimalPeriod advance g * rest := by
    rw [whole, mul_left_comm, Nat.mul_div_cancel_left _ prime.pos]
  refine nonzero (eq_zero_of_fixed member ?_)
  rw [transition_pow_apply, shorter]
  exact (Function.isPeriodicPt_minimalPeriod advance g).mul_const rest

theorem card_generator : Nat.card Generator = period + 1 := by
  have words : Nat.card UInt64 = 2 ^ 64 :=
    (Nat.card_congr ⟨UInt64.toFin, UInt64.ofFin, fun _ => rfl, fun _ => rfl⟩).trans (Nat.card_fin _)
  have pairs : Nat.card Generator = Nat.card (UInt64 × UInt64) :=
    Nat.card_congr ⟨fun g => (g.first, g.second), fun p => ⟨p.1, p.2⟩, fun _ => rfl, fun _ => rfl⟩
  rw [pairs, Nat.card_prod, words]
  rfl

/-- From a state other than zero every other such state is reached within the period. -/
theorem exists_iterate_eq {g h : Generator} (start : g ≠ 0) (target : h ≠ 0) : ∃ n < period, advance^[n] g = h := by
  -- Zero and the states on the way are as many as there are states.
  let passed (i : Option (Fin period)) : Generator := i.elim 0 fun n => advance^[n] g
  have nonzero (n : Fin period) : advance^[n] g ≠ 0 := by
    intro zero
    have back : advance^[period - n] (advance^[n] g) = g := by
      rw [← Function.iterate_add_apply, Nat.sub_add_cancel n.isLt.le, ← transition_pow_apply, transition_pow_period]
      rfl
    rw [zero, ← transition_pow_apply, map_zero] at back
    exact start back.symm
  have injective : passed.Injective := by
    rintro (_ | n) (_ | m) same
    · rfl
    · exact absurd same.symm (nonzero m)
    · exact absurd same (nonzero n)
    · have inside (k : Fin period) : (k : Nat) ∈ Set.Iio (Function.minimalPeriod advance g) := by
        rw [minimalPeriod_advance start]
        exact k.isLt
      exact congrArg some (Fin.ext (Function.iterate_injOn_Iio_minimalPeriod (inside n) (inside m) same))
  have finite : Finite Generator := Nat.finite_of_card_ne_zero (by rw [card_generator]; exact Nat.succ_ne_zero _)
  obtain ⟨i, reached⟩ := (injective.bijective_of_nat_card_le (by simp [card_generator])).surjective h
  cases i with
  | none => exact absurd reached.symm target
  | some n => exact ⟨n, n.isLt, reached⟩

theorem exists_word_eq_zero (g : Generator) : ∃ n < period, (advance^[n] g).word.1 = 0 := by
  by_cases zero : g = 0
  · exact ⟨0, by decide, zero ▸ rfl⟩
  · have target : (⟨1, 0xffffffffffffffff⟩ : Generator) ≠ 0 := by decide
    obtain ⟨n, within, reached⟩ := exists_iterate_eq zero target
    exact ⟨n, within, reached ▸ rfl⟩

end GraphGrammar.Generator
