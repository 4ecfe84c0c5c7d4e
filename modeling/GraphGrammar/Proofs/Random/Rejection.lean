import GraphGrammar.Proofs.Random.Eligible
import GraphGrammar.Proofs.Random.Period
import GraphGrammar.Proofs.Random.Seeds

/-!
Draws of an index. Words are drawn until one is accepted, and this one is reduced to an index. The word zero is always
accepted, and every state draws it within the period. So the draws come to an end from whatever state, and the bound
that the definition puts on their number is never met.
-/

namespace GraphGrammar.Generator

def accepts (count word : UInt64) : Bool := isPowerOfTwo count || decide (word < rejectionBound count)

def reduce (count word : UInt64) : UInt64 :=
  if isPowerOfTwo count then word &&& (count - 1) else word % count

/-- The number of draws up to the first accepted word, without any bound on it, and what they end with. -/
inductive DrawsIndex (count : UInt64) : Nat → Generator → UInt64 × Generator → Prop where
  | accept {g : Generator} (accepted : accepts count g.word.1 = true) :
    DrawsIndex count 1 g (reduce count g.word.1, g.word.2)
  | reject {draws : Nat} {g : Generator} {result : UInt64 × Generator} (rejected : accepts count g.word.1 = false)
    (later : DrawsIndex count draws g.word.2 result) : DrawsIndex count (draws + 1) g result

variable {count : UInt64} {g : Generator}

namespace DrawsIndex

variable {draws other : Nat} {result result' : UInt64 × Generator}

theorem unique (first : DrawsIndex count draws g result) (second : DrawsIndex count other g result') :
    draws = other ∧ result = result' := by
  induction first generalizing other with
  | accept accepted =>
    cases second with
    | accept => exact ⟨rfl, rfl⟩
    | reject rejected => simp [accepted] at rejected
  | reject rejected _ ih =>
    cases second with
    | accept accepted => simp [accepted] at rejected
    | reject _ later =>
      obtain ⟨same, ends⟩ := ih later
      exact ⟨congrArg (· + 1) same, ends⟩

theorem one_lt (drawn : DrawsIndex count draws g result) (rejected : accepts count g.word.1 = false) : 1 < draws := by
  cases drawn with
  | accept accepted => simp [accepted] at rejected
  | reject _ later => cases later <;> omega

theorem indexWithin_eq (drawn : DrawsIndex count draws g result) (rejects : isPowerOfTwo count = false) {most : Nat}
    (few : draws ≤ most) : indexWithin count most g = some result := by
  induction drawn generalizing most with
  | accept accepted =>
    have below := by simpa [accepts, rejects] using accepted
    rw [indexWithin_of_lt below few, reduce, rejects]
    rfl
  | @reject draws g result rejected _ ih =>
    cases most with
    | zero => omega
    | succ most =>
      have above : ¬g.word.1 < rejectionBound count := by simpa [accepts, rejects] using rejected
      rw [indexWithin, if_neg above]
      exact ih (Nat.le_of_succ_le_succ few)

theorem index_eq (drawn : DrawsIndex count draws g result) (few : draws ≤ stateCount) : index count g = result := by
  rw [index]
  split
  · next power =>
    cases drawn with
    | accept => rw [reduce, if_pos power]
    | reject rejected => simp [accepts, power] at rejected
  · next other =>
    rw [drawn.indexWithin_eq (by simpa using other) few]
    rfl

end DrawsIndex

theorem exists_drawsIndex {n : Nat} (accepted : accepts count (advance^[n] g).word.1 = true) :
    ∃ draws ≤ n + 1, ∃ result, DrawsIndex count draws g result := by
  induction n generalizing g with
  | zero => exact ⟨1, le_rfl, _, .accept accepted⟩
  | succ n ih =>
    cases here : accepts count g.word.1 with
    | true => exact ⟨1, by omega, _, .accept here⟩
    | false =>
      obtain ⟨draws, few, result, later⟩ := ih (g := g.word.2) accepted
      exact ⟨draws + 1, by omega, result, .reject here later⟩

theorem rejectionBound_pos (positive : 0 < count) : 0 < rejectionBound count := by
  have some : 0 < count.toNat := positive
  have round : 0 < (UInt64.size - 1) / count.toNat := Nat.div_pos (Nat.le_sub_one_of_lt count.toNat_lt) some
  rw [UInt64.lt_iff_toNat_lt, toNat_rejectionBound]
  exact Nat.mul_pos some round

theorem exists_word_lt_rejectionBound (positive : 0 < count) (g : Generator) :
    ∃ n < period, (advance^[n] g).word.1 < rejectionBound count := by
  obtain ⟨n, within, zero⟩ := exists_word_eq_zero g
  exact ⟨n, within, zero ▸ rejectionBound_pos positive⟩

theorem drawsIndex_index (positive : 0 < count) (g : Generator) :
    ∃ draws ≤ period, DrawsIndex count draws g (index count g) := by
  obtain ⟨n, within, below⟩ := exists_word_lt_rejectionBound positive g
  have accepted : accepts count (advance^[n] g).word.1 = true := by simp [accepts, below]
  obtain ⟨draws, few, result, drawn⟩ := exists_drawsIndex accepted
  have most : draws ≤ period := few.trans within
  have states : period ≤ stateCount := by decide
  exact ⟨draws, most, drawn.index_eq (most.trans states) ▸ drawn⟩

theorem reached_iff (first second : UInt64) (g : Generator) :
    (∃ n, advance^[n] (ofWords first second) = g) ↔ g ≠ 0 := by
  constructor
  · rintro ⟨n, rfl⟩
    exact iterate_advance_ne_zero (ofWords_ne_zero first second) n
  · intro target
    obtain ⟨n, _, reached⟩ := exists_iterate_eq (ofWords_ne_zero first second) target
    exact ⟨n, reached⟩

/-- The draws of an index come to an end. From every state that some seed leads to, which are all states but zero, a word
below the bound is drawn at some time, the draws stop at the first accepted word, and they can end in no other way. -/
theorem index_draws_end {count : UInt64} (positive : 0 < count) :
    (∀ first second g, (∃ n, advance^[n] (ofWords first second) = g) ↔ g ≠ ⟨0, 0⟩) ∧
    ∀ g, (∃ n, (advance^[n] g).word.1 < rejectionBound count) ∧
      ∃ draws, DrawsIndex count draws g (index count g) ∧
        ∀ other result, DrawsIndex count other g result → other = draws ∧ result = index count g := by
  refine ⟨reached_iff, fun g => ⟨?_, ?_⟩⟩
  · obtain ⟨n, _, below⟩ := exists_word_lt_rejectionBound positive g
    exact ⟨n, below⟩
  · obtain ⟨draws, _, drawn⟩ := drawsIndex_index positive g
    exact ⟨draws, drawn, fun _ _ another => another.unique drawn⟩

/-- A state whose first word is the greatest one, which is rejected wherever the count is no power of two. -/
theorem index_draws_end_past_rejection :
    let count : UInt64 := 0x8000000000000001
    let g : Generator := ⟨0xffffffffffffffff, 0⟩
    0 < count ∧ accepts count g.word.1 = false ∧ (∃ n, (advance^[n] g).word.1 < rejectionBound count) ∧
      ∃ draws, 1 < draws ∧ DrawsIndex count draws g (index count g) := by
  intro count g
  have positive : 0 < count := by decide
  have rejected : accepts count g.word.1 = false := by decide
  obtain ⟨below, draws, drawn, _⟩ := (index_draws_end positive).2 g
  exact ⟨positive, rejected, below, draws, drawn.one_lt rejected, drawn⟩

end GraphGrammar.Generator
