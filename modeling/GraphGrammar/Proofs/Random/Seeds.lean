import GraphGrammar.Proofs.Random.Linear
import Mathlib.Data.LawfulXor.Basic
import Mathlib.Logic.Function.Iterate

/-!
States of generators. The transition has an inverse and takes nothing but zero to zero, so a generator that
does not start there never gets there. A seed of one word never starts at zero, and two such seeds never start
at the same state: the finalizer that expands them is a chain of steps each of which can be undone.
-/

namespace GraphGrammar.Generator

def retreat (g : Generator) : Generator :=
  let mixed := rotateLeft g.second 28
  let first := rotateLeft (g.first ^^^ mixed ^^^ (mixed <<< 14)) 9
  ⟨first, mixed ^^^ first⟩

theorem xor_xor_xor_cancel (a b c : UInt64) : a ^^^ b ^^^ c ^^^ b ^^^ c = a := by
  rw [UInt64.xor_assoc (a ^^^ b), UInt64.xor_comm c, ← UInt64.xor_assoc (a ^^^ b), xor_cancel_right, xor_cancel_right]

theorem retreat_advance (g : Generator) : g.advance.retreat = g := by
  have mixed : rotateLeft (rotateLeft (g.second ^^^ g.first) 36) 28 = g.second ^^^ g.first :=
    rotateLeft_rotateLeft (by decide) (by decide) rfl _
  have first : rotateLeft (rotateLeft g.first 55) 9 = g.first := rotateLeft_rotateLeft (by decide) (by decide) rfl _
  simp only [advance, retreat, mixed, xor_xor_xor_cancel, first, xor_cancel_right]

theorem advance_retreat (g : Generator) : g.retreat.advance = g := by
  have second : rotateLeft (rotateLeft g.second 28) 36 = g.second :=
    rotateLeft_rotateLeft (by decide) (by decide) rfl _
  have first (x : UInt64) : rotateLeft (rotateLeft x 9) 55 = x := rotateLeft_rotateLeft (by decide) (by decide) rfl x
  simp only [advance, retreat, xor_cancel_right, first, xor_xor_xor_cancel, second]

theorem advance_bijective : Function.Bijective advance :=
  Function.bijective_iff_has_inverse.mpr ⟨retreat, retreat_advance, advance_retreat⟩

theorem advance_eq_zero_iff {g : Generator} : g.advance = 0 ↔ g = 0 :=
  advance_bijective.injective.eq_iff' rfl

theorem iterate_advance_ne_zero {g : Generator} (start : g ≠ 0) (n : Nat) : advance^[n] g ≠ 0 := by
  induction n generalizing g with
  | zero => exact start
  | succ n ih => exact ih (mt advance_eq_zero_iff.mp start)

theorem xor_shiftRight_injective {n : UInt64} (some : 0 < n.toNat) (few : n.toNat < 64) :
    Function.Injective fun x : UInt64 => x ^^^ (x >>> n) := by
  intro x y same
  have shifted : x ^^^ y = (x ^^^ y) >>> n := by
    rw [UInt64.shiftRight_xor, ← UInt64.xor_eq_zero_iff, xor_xor_xor_comm]
    exact UInt64.xor_eq_zero_iff.mpr same
  have part := congrArg UInt64.toNat shifted
  rw [UInt64.toNat_shiftRight, Nat.mod_eq_of_lt few, Nat.shiftRight_eq_div_pow] at part
  have none : (x ^^^ y).toNat = 0 := by
    by_contra positive
    have less := Nat.div_lt_self (Nat.pos_of_ne_zero positive) (Nat.one_lt_two_pow (Nat.ne_of_gt some))
    omega
  exact UInt64.xor_eq_zero_iff.mp (UInt64.toNat_inj.mp none)

theorem mul_injective_of_inverse {c d : UInt64} (inverse : c * d = 1) : Function.Injective fun x : UInt64 => x * c := by
  intro x y same
  have back (z : UInt64) : z * c * d = z := by rw [UInt64.mul_assoc, inverse, UInt64.mul_one]
  rw [← back x, ← back y]
  exact congrArg (· * d) same

theorem mix_injective : Function.Injective mix := by
  have first := xor_shiftRight_injective (n := 30) (by decide) (by decide)
  have second := xor_shiftRight_injective (n := 27) (by decide) (by decide)
  have third := xor_shiftRight_injective (n := 31) (by decide) (by decide)
  have scaled := mul_injective_of_inverse (c := 0xbf58476d1ce4e5b9) (d := 0x96de1b173f119089) (by decide)
  have scaledAgain := mul_injective_of_inverse (c := 0x94d049bb133111eb) (d := 0x319642b2d24d8ec3) (by decide)
  exact third.comp (scaledAgain.comp (second.comp (scaled.comp first)))

theorem ofWords_ne_zero (first second : UInt64) : ofWords first second ≠ 0 := by
  unfold ofWords
  split
  · decide
  · next other => exact fun zero => other (Generator.mk.inj zero)

theorem ofWords_of_ne_zero {first second : UInt64} (other : mk first second ≠ 0) :
    ofWords first second = ⟨first, second⟩ := by
  refine if_neg ?_
  rintro ⟨rfl, rfl⟩
  exact other rfl

/-- The two words of a seed are not both zero, because they come from different words. -/
theorem expansion_ne_zero (seed : UInt64) :
    mk (mix (seed + goldenGamma)) (mix (seed + goldenGamma + goldenGamma)) ≠ 0 := by
  intro zero
  obtain ⟨first, second⟩ := Generator.mk.inj zero
  have same := mix_injective (first.trans second.symm)
  have moved : goldenGamma = 0 := by simpa using same
  cases moved

theorem ofSeed_eq (seed : UInt64) :
    ofSeed seed = ⟨mix (seed + goldenGamma), mix (seed + goldenGamma + goldenGamma)⟩ :=
  ofWords_of_ne_zero (expansion_ne_zero seed)

theorem ofSeed_injective : Function.Injective ofSeed := by
  intro seed other same
  rw [ofSeed_eq, ofSeed_eq] at same
  have moved := mix_injective (Generator.mk.inj same).1
  simpa using moved

/-- The transition is a bijection that takes only zero to zero, so zero is not reached from any seed. Different seeds of
one word have different states, and the two words that such a seed expands to are never both zero. -/
theorem states_live_and_seeds_apart :
    Function.Bijective advance ∧ (∀ g, advance g = ⟨0, 0⟩ ↔ g = ⟨0, 0⟩) ∧
    (∀ first second n, advance^[n] (ofWords first second) ≠ ⟨0, 0⟩) ∧
    (∀ seed n, advance^[n] (ofSeed seed) ≠ ⟨0, 0⟩) ∧ Function.Injective ofSeed ∧
    ∀ seed, let words : Generator := ⟨mix (seed + goldenGamma), mix (seed + goldenGamma + goldenGamma)⟩
      words ≠ ⟨0, 0⟩ ∧ ofSeed seed = words :=
  ⟨advance_bijective, fun _ => advance_eq_zero_iff,
    fun first second => iterate_advance_ne_zero (ofWords_ne_zero first second),
    fun _ => iterate_advance_ne_zero (ofWords_ne_zero _ _), ofSeed_injective,
    fun seed => ⟨expansion_ne_zero seed, ofSeed_eq seed⟩⟩

end GraphGrammar.Generator
