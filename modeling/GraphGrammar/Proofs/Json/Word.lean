import GraphGrammar.Json.Reader
import GraphGrammar.Proofs.Json.Scanning
import Mathlib.Data.List.TakeWhile

/-!
Numbers as words of a document. The text of every number is a single word, and the word of a whole
number is read as this number.
-/

namespace GraphGrammar.Json

open Token (endsWord InWord)

theorem mem_of_endsWord {c : Char} (ends : endsWord c = true) :
    c ∈ [' ', '\t', '\n', '\r', '"', '[', ']', '\x7b', '\x7d', ',', ':'] := by
  simp only [endsWord, Token.isBlank, Bool.or_eq_true, beq_iff_eq] at ends
  rcases ends with ((((rfl | rfl) | rfl) | rfl) | rfl) | punctuation
  · decide
  · decide
  · decide
  · decide
  · decide
  · unfold Token.punctuation? at punctuation
    split at punctuation
    · decide
    · decide
    · decide
    · decide
    · decide
    · decide
    · cases punctuation

theorem endsWord_of_isDigit {c : Char} (digit : c.isDigit = true) : endsWord c = false := by
  apply Bool.eq_false_iff.mpr
  intro ends
  have member := mem_of_endsWord ends
  simp only [List.mem_cons, List.not_mem_nil, or_false] at member
  rcases member with rfl | rfl | rfl | rfl | rfl | rfl | rfl | rfl | rfl | rfl | rfl <;> cases digit

namespace Token.InWord

variable {cs ds : List Char}

theorem append (first : InWord cs) (rest : InWord ds) : InWord (cs ++ ds) :=
  List.forall_mem_append.mpr ⟨first, rest⟩

theorem cons {c : Char} (first : endsWord c = false) (rest : InWord cs) : InWord (c :: cs) :=
  List.forall_mem_cons.mpr ⟨first, rest⟩

theorem of_subset (all : InWord cs) (subset : ds ⊆ cs) : InWord ds :=
  fun c member => all c (subset member)

end Token.InWord

theorem inWord_replicate_zero (n : Nat) : InWord (List.replicate n '0') := by
  intro c member
  rw [List.eq_of_mem_replicate member]
  decide

theorem inWord_toDigits (n : Nat) : InWord (Nat.toDigits 10 n) := fun _ member =>
  endsWord_of_isDigit (Nat.isDigit_of_mem_toDigits (by decide) (by decide) member)

theorem inWord_positional (d : Decimal) : InWord d.positional := by
  have digits := inWord_toDigits d.digits
  unfold Decimal.positional
  simp only
  split
  · exact (digits.append (inWord_replicate_zero _)).append (by decide)
  · have padded (n : Nat) : InWord (List.replicate n '0' ++ Decimal.digitsOf d.digits) :=
      (inWord_replicate_zero n).append digits
    exact ((padded _).of_subset (List.take_subset _ _)).append
      (.cons (by decide) ((padded _).of_subset (List.drop_subset _ _)))

theorem inWord_scientific (d : Decimal) : InWord d.scientific := by
  have digits := inWord_toDigits d.digits
  unfold Decimal.scientific
  simp only
  have sign : InWord (if d.leadingExponent < 0 then ['-'] else []) := by split <;> decide
  have mark := InWord.cons (c := 'e') (by decide)
    (sign.append (inWord_toDigits d.leadingExponent.natAbs))
  split
  · next leading next rest some =>
    rw [Decimal.digitsOf] at some
    rw [some] at digits
    obtain ⟨first, others⟩ := List.forall_mem_cons.mp digits
    exact (InWord.cons first (.cons (by decide) others)).append mark
  · exact digits.append mark

theorem inWord_render (style : Decimal.Style) (x : Number) : InWord (x.render style).toList := by
  have sign : InWord (if x.signBit then ['-'] else []) := by split <;> decide
  unfold Number.render
  simp only
  split
  · decide
  · split
    · rw [String.toList_ofList]
      exact sign.append (by decide)
    · split
      · rw [String.toList_ofList]
        exact sign.append (by decide)
      · rw [String.toList_ofList]
        refine sign.append ?_
        unfold Decimal.render
        split
        · exact inWord_positional _
        · exact inWord_scientific _

theorem Numeral.inWord_render (n : Numeral) : InWord n.render.toList := by
  cases n with
  | natural n =>
    rw [Numeral.render, String.toList_ofList]
    exact inWord_toDigits _
  | negative n =>
    rw [Numeral.render, String.toList_ofList]
    exact .cons (by decide) (inWord_toDigits _)
  | real x =>
    rw [Numeral.render]
    split
    · exact Json.inWord_render _ _
    · decide

namespace Literal

theorem le_ofDigitChars (cs : List Char) (value : Nat) : value ≤ Nat.ofDigitChars 10 cs value := by
  induction cs generalizing value with
  | nil => exact Nat.le_of_eq Nat.ofDigitChars_nil.symm
  | cons c rest ih =>
    rw [Nat.ofDigitChars_cons]
    exact Nat.le_trans (by omega) (ih _)

theorem collect_digits (cs : List Char) (value taken : Nat)
    (small : Nat.ofDigitChars 10 cs value < UInt64.size) :
    collect value taken (cs.map fun c => c.toNat - '0'.toNat) =
      (Nat.ofDigitChars 10 cs value, taken + cs.length, true) := by
  induction cs generalizing value taken with
  | nil => rw [Nat.ofDigitChars_nil]; rfl
  | cons c rest ih =>
    rw [Nat.ofDigitChars_cons, Nat.mul_comm 10] at small ⊢
    have first := Nat.lt_of_le_of_lt (le_ofDigitChars rest _) small
    rw [List.map_cons, collect, if_pos first, ih _ _ small, List.length_cons, Nat.add_assoc,
      Nat.add_comm 1]

theorem head?_toDigits {n : Nat} (positive : 0 < n) :
    ((Nat.toDigits 10 n).map fun c => c.toNat - '0'.toNat).head? ≠ some 0 := by
  induction n using Nat.strongRecOn with
  | ind n ih =>
    rcases Nat.lt_or_ge n 10 with small | large
    · have value : n.digitChar.toNat - '0'.toNat = n := Nat.toNat_digitChar_sub_48_of_lt_ten small
      rw [Nat.toDigits_of_lt_base small, List.map_singleton, value, List.head?_cons]
      intro zero
      have same := Option.some.inj zero
      omega
    · have front := ih (n / 10) (by omega) (by omega)
      rw [Nat.toDigits_of_base_le (by decide) large, List.map_append, List.head?_append]
      cases head : ((Nat.toDigits 10 (n / 10)).map fun c => c.toNat - '0'.toNat).head? with
      | none =>
        have empty := List.map_eq_nil_iff.mp (List.head?_eq_none_iff.mp head)
        exact absurd empty Nat.toDigits_ne_nil
      | some d =>
        rw [head] at front
        exact front

theorem digits_toDigits (n : Nat) :
    digits (Nat.toDigits 10 n) = ((Nat.toDigits 10 n).map fun c => c.toNat - '0'.toNat, []) := by
  have all : ∀ c ∈ Nat.toDigits 10 n, isDigit c = true := fun c member =>
    Nat.isDigit_of_mem_toDigits (by decide) (by decide) member
  rw [digits, List.takeWhile_eq_self_iff.mpr all, List.dropWhile_eq_nil_iff.mpr all]

theorem parse?_toDigits (n : Nat) :
    parse? (Nat.toDigits 10 n) =
      some (⟨false, (Nat.toDigits 10 n).map fun c => c.toNat - '0'.toNat, [], none⟩, []) := by
  have split := digits_toDigits n
  have leading : ¬((Nat.toDigits 10 n).map (fun c => c.toNat - '0'.toNat) = [] ∨
      ((Nat.toDigits 10 n).map fun c => c.toNat - '0'.toNat).head? = some 0 ∧
        ((Nat.toDigits 10 n).map fun c => c.toNat - '0'.toNat).length ≠ 1) := by
    rintro (empty | ⟨zero, long⟩)
    · exact Nat.toDigits_ne_nil (List.map_eq_nil_iff.mp empty)
    · rcases Nat.eq_zero_or_pos n with rfl | positive
      · exact long rfl
      · exact head?_toDigits positive zero
  have unsigned : ∀ rest, Nat.toDigits 10 n ≠ '-' :: rest := by
    intro rest same
    have digit : ('-').isDigit = true := by
      refine Nat.isDigit_of_mem_toDigits (b := 10) (n := n) (by decide) (by decide) ?_
      rw [same]
      exact List.mem_cons_self
    cases digit
  generalize Nat.toDigits 10 n = cs at split leading unsigned ⊢
  unfold parse?
  split
  next isNegative rest sign =>
    split at sign
    · exact absurd rfl (unsigned _)
    · cases sign
      simp only [split, if_neg leading]
      rfl

theorem numeral?_digits (n : UInt64) :
    numeral? ⟨false, (Nat.toDigits 10 n.toNat).map fun c => c.toNat - '0'.toNat, [], none⟩ =
      some (.natural n) := by
  have value : Nat.ofDigitChars 10 (Nat.toDigits 10 n.toNat) 0 = n.toNat :=
    Nat.ofDigitChars_ten_toDigits
  have small : Nat.ofDigitChars 10 (Nat.toDigits 10 n.toNat) 0 < UInt64.size := by
    rw [value]
    exact n.toNat_lt
  have collected := collect_digits (Nat.toDigits 10 n.toNat) 0 0 small
  rw [value] at collected
  unfold numeral?
  simp only [collected]
  exact congrArg (some <| Numeral.natural ·) UInt64.ofNat_toNat

end Literal

theorem afterName?_eq_none (name : String) {a c : Char} {as rest : List Char}
    (begins : name.toList = a :: as) (other : a ≠ c) :
    Token.afterName? name (c :: rest) = none := by
  rw [Token.afterName?, begins]
  exact if_neg fun same => other (beq_iff_eq.mp same)

theorem ofWord?_natural (n : UInt64) :
    Token.ofWord? (Nat.toDigits 10 n.toNat) = some (.number (some (.natural n)), []) := by
  have read := Literal.parse?_toDigits n.toNat
  have numeral := Literal.numeral?_digits n
  have digits : ∀ c ∈ Nat.toDigits 10 n.toNat, c.isDigit = true := fun _ member =>
    Nat.isDigit_of_mem_toDigits (by decide) (by decide) member
  cases word : Nat.toDigits 10 n.toNat with
  | nil => exact absurd word Nat.toDigits_ne_nil
  | cons c rest =>
    rw [word] at read numeral digits
    have digit := digits c List.mem_cons_self
    have other (a : Char) (letter : a.isDigit = false) : a ≠ c := by
      rintro rfl
      rw [letter] at digit
      cases digit
    simp only [Token.ofWord?, afterName?_eq_none "null" rfl (other 'n' rfl),
      afterName?_eq_none "true" rfl (other 't' rfl),
      afterName?_eq_none "false" rfl (other 'f' rfl), read, numeral, Option.map_none,
      Option.map_some]
    rfl

/-- A number that is read back from its own text. -/
def Numeral.ReadsBack (n : Numeral) : Prop := Tree.ofText? n.render = some (.number n)

def Numeral.readsBack (n : Numeral) : Bool :=
  match Tree.ofText? n.render with
  | some (.number m) => m == n
  | _ => false

theorem Numeral.readsBack_iff {n : Numeral} : n.readsBack = true ↔ n.ReadsBack := by
  unfold readsBack ReadsBack
  constructor
  · intro check
    split at check
    · next m read => rw [read, beq_iff_eq.mp check]
    · cases check
  · intro read
    rw [read]
    exact beq_self_eq_true n

instance (n : Numeral) : Decidable n.ReadsBack := decidable_of_iff _ Numeral.readsBack_iff

theorem Document.isWhole_ofTokens (tokens : List Token) : (ofTokens tokens false).isWhole = false := by
  unfold ofTokens
  split <;> rfl

theorem Numeral.ReadsBack.ofWord? {n : Numeral} (back : n.ReadsBack) :
    Token.ofWord? n.render.toList = some (.number (some n), []) := by
  unfold Numeral.ReadsBack Tree.ofText? Document.ofText at back
  have inWord := n.inWord_render
  generalize n.render.toList = cs at back inWord ⊢
  by_cases nonempty : cs = []
  · subst nonempty
    cases back
  have scanned : Token.ofText cs = Token.Scan.finish ⟨[], .word cs.reverse⟩ :=
    congrArg Token.Scan.finish (Token.foldl_idle_word nonempty inWord [])
  rw [scanned] at back
  simp only [Token.Scan.finish, Token.Scan.endWord, List.reverse_reverse] at back
  cases read : Token.ofWord? cs with
  | none =>
    rw [read] at back
    cases back
  | some result =>
    obtain ⟨token, rest⟩ := result
    rw [read] at back
    cases rest with
    | nil =>
      cases token with
      | number m =>
        cases m with
        | none => cases back
        | some m =>
          cases back
          rfl
      | string s => cases s <;> cases back
      | null | bool | openArray | closeArray | openObject | closeObject | comma | colon => cases back
    | cons c rest =>
      -- What is left of a word is a fault, and no document with a fault is whole.
      have stopped := Document.isWhole_ofTokens [token]
      change (if (Document.ofTokens [token] false).isWhole then _ else _) = _ at back
      rw [stopped] at back
      cases back

theorem Numeral.ReadsBack.writes {n : Numeral} (back : n.ReadsBack) :
    Token.Writes n.render.toList [.number (some n)] := by
  have read := back.ofWord?
  refine Token.writes_word ?_ n.inWord_render read
  intro empty
  rw [empty] at read
  cases read

theorem Numeral.writes_natural (n : UInt64) :
    Token.Writes (Numeral.natural n).render.toList [.number (some (.natural n))] := by
  rw [Numeral.render, String.toList_ofList]
  exact Token.writes_word Nat.toDigits_ne_nil (inWord_toDigits _) (ofWord?_natural n)

end GraphGrammar.Json
