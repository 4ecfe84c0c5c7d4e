import GraphGrammar.Id.Basic

/-!
The text of an id is read as this id.
-/

namespace GraphGrammar

namespace Text

theorem digitValue?_of_isDigit {c : Char} (digit : c.isDigit = true) :
    digitValue? c = some (c.toNat - '0'.toNat) := if_pos digit

theorem continueNumeral?_of_digits {cs : List Char} (digits : ∀ c ∈ cs, c.isDigit = true)
    (value : Nat) : continueNumeral? value cs = some (Nat.ofDigitChars 10 cs value) := by
  induction cs generalizing value with
  | nil =>
    rw [continueNumeral?, Nat.ofDigitChars_nil]
  | cons c rest ih =>
    have first := digitValue?_of_isDigit (digits c List.mem_cons_self)
    have tail := ih fun d member => digits d (List.mem_cons_of_mem _ member)
    rw [continueNumeral?, first, Nat.ofDigitChars_cons, Nat.mul_comm 10]
    exact tail _

theorem numeral?_of_digits {cs : List Char} (nonempty : cs ≠ [])
    (digits : ∀ c ∈ cs, c.isDigit = true) : numeral? cs = some (Nat.ofDigitChars 10 cs 0) := by
  cases cs with
  | nil => exact absurd rfl nonempty
  | cons c rest =>
    have unsigned : c ≠ '+' := by
      rintro rfl
      have digit := digits '+' List.mem_cons_self
      cases digit
    have plain : numeral? (c :: rest) = digits? (c :: rest) := by
      unfold numeral?
      split
      · next same =>
        cases same
        exact absurd rfl unsigned
      · rfl
    have first := digitValue?_of_isDigit (digits c List.mem_cons_self)
    have tail := continueNumeral?_of_digits fun d member => digits d (List.mem_cons_of_mem _ member)
    rw [plain, digits?, first, Nat.ofDigitChars_cons, Nat.mul_zero, Nat.zero_add]
    exact tail _

theorem word?_toDigits (n : UInt64) : word? (Nat.toDigits 10 n.toNat) = some n := by
  have digits : ∀ c ∈ Nat.toDigits 10 n.toNat, c.isDigit = true := fun c member =>
    Nat.isDigit_of_mem_toDigits (by decide) (by decide) member
  have value := numeral?_of_digits Nat.toDigits_ne_nil digits
  rw [Nat.ofDigitChars_ten_toDigits] at value
  simp only [word?, value, Option.bind_eq_bind, Option.bind_some, if_pos n.toNat_lt,
    UInt64.ofNat_toNat]

end Text

theorem IdKind.parse?_render (kind : IdKind) (index : UInt64) :
    kind.parse? (kind.render index) = some index := by
  simp only [parse?, render, String.toList_ofList, if_true, Text.word?_toDigits]

theorem NodeId.parse?_text (id : NodeId) : parse? id.text = some id := by
  rw [parse?, text, IdKind.parse?_render]
  rfl

theorem EdgeId.parse?_text (id : EdgeId) : parse? id.text = some id := by
  rw [parse?, text, IdKind.parse?_render]
  rfl

end GraphGrammar
