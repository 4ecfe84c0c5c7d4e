import GraphGrammar.Proofs.Id.Text
import Mathlib.Data.Nat.Digits.Defs

/-!
Which texts are read as ids. A numeral is a row of digits behind a plus sign or none, and its value is that of the
digits by their places. Such a numeral behind the letter of the kind is read as the id with this number, if a word
can hold it, and no other text is read as an id.
-/

namespace GraphGrammar

namespace Text

def digitOf (c : Char) : Nat := c.toNat - '0'.toNat

/-- The number that digits write. The last one counts ones, and each of the others ten times what the next one
counts. -/
def decimalValue (digits : List Char) : Nat := Nat.ofDigits 10 (digits.map digitOf).reverse

/-- At least one digit, and nothing else, with the value of the number. -/
structure WritesDigits (digits : List Char) (value : Nat) : Prop where
  nonempty : digits ≠ []
  decimal : ∀ c ∈ digits, c.isDigit = true
  value_eq : decimalValue digits = value

inductive WritesNumeral (value : Nat) : List Char → Prop where
  | unsigned {digits : List Char} (writes : WritesDigits digits value) : WritesNumeral value digits
  | signed {digits : List Char} (writes : WritesDigits digits value) : WritesNumeral value ('+' :: digits)

theorem digitValue?_eq_some_iff {c : Char} {value : Nat} :
    digitValue? c = some value ↔ c.isDigit = true ∧ digitOf c = value := by
  constructor
  · intro read
    by_cases digit : c.isDigit = true
    · rw [digitValue?_of_isDigit digit] at read
      exact ⟨digit, Option.some.inj read⟩
    · have none : digitValue? c = none := if_neg digit
      rw [none] at read
      cases read
  · rintro ⟨digit, rfl⟩
    exact digitValue?_of_isDigit digit

theorem decimalValue_cons (c : Char) (rest : List Char) :
    decimalValue (c :: rest) = digitOf c * 10 ^ rest.length + decimalValue rest := by
  rw [decimalValue, List.map_cons, Nat.ofDigits_reverse_cons, List.length_map, decimalValue]
  ring

theorem continueNumeral?_eq_some_iff {cs : List Char} {before value : Nat} :
    continueNumeral? before cs = some value ↔
      (∀ c ∈ cs, c.isDigit = true) ∧ before * 10 ^ cs.length + decimalValue cs = value := by
  induction cs generalizing before with
  | nil => simp [continueNumeral?, decimalValue]
  | cons c rest ih =>
    have places (digit : Nat) : (before * 10 + digit) * 10 ^ rest.length =
        before * 10 ^ (c :: rest).length + digit * 10 ^ rest.length := by
      rw [List.length_cons, pow_succ]
      ring
    simp only [continueNumeral?, Option.bind_eq_bind, Option.bind_eq_some_iff, digitValue?_eq_some_iff, ih,
      List.forall_mem_cons, decimalValue_cons]
    constructor
    · rintro ⟨_, ⟨digit, rfl⟩, digits, rfl⟩
      refine ⟨⟨digit, digits⟩, ?_⟩
      rw [places, Nat.add_assoc]
    · rintro ⟨⟨digit, digits⟩, rfl⟩
      refine ⟨_, ⟨digit, rfl⟩, digits, ?_⟩
      rw [places, Nat.add_assoc]

theorem digits?_eq_some_iff {cs : List Char} {value : Nat} : digits? cs = some value ↔ WritesDigits cs value := by
  cases cs with
  | nil => exact ⟨(nomatch ·), fun writes => absurd rfl writes.nonempty⟩
  | cons c rest =>
    -- The first digit continues zero.
    have start : digits? (c :: rest) = continueNumeral? 0 (c :: rest) := by
      simp only [digits?, continueNumeral?, Nat.zero_mul, Nat.zero_add]
    rw [start, continueNumeral?_eq_some_iff, Nat.zero_mul, Nat.zero_add]
    constructor
    · rintro ⟨digits, same⟩
      exact ⟨List.cons_ne_nil c rest, digits, same⟩
    · intro writes
      exact ⟨writes.decimal, writes.value_eq⟩

theorem not_writesDigits_plus {rest : List Char} {value : Nat} : ¬WritesDigits ('+' :: rest) value :=
  fun writes => nomatch writes.decimal '+' List.mem_cons_self

theorem numeral?_eq_some_iff {cs : List Char} {value : Nat} : numeral? cs = some value ↔ WritesNumeral value cs := by
  unfold numeral?
  split
  · next rest =>
    rw [digits?_eq_some_iff]
    constructor
    · exact .signed
    · rintro (plus | digits)
      · exact absurd plus not_writesDigits_plus
      · exact digits
  · next cs unsigned =>
    rw [digits?_eq_some_iff]
    constructor
    · exact .unsigned
    · rintro (digits | _)
      · exact digits
      · exact absurd rfl (unsigned _)

theorem word?_eq_some_iff {cs : List Char} {word : UInt64} :
    word? cs = some word ↔ WritesNumeral word.toNat cs := by
  simp only [word?, Option.bind_eq_bind, Option.bind_eq_some_iff, numeral?_eq_some_iff]
  constructor
  · rintro ⟨value, numeral, fits⟩
    split at fits
    · next small =>
      cases fits
      rwa [UInt64.toNat_ofNat_of_lt' small]
    · cases fits
  · intro numeral
    exact ⟨word.toNat, numeral, by rw [if_pos word.toNat_lt, UInt64.ofNat_toNat]⟩

end Text

def NamesWith (letter : Char) (text : String) (number : Nat) : Prop :=
  ∃ numeral, text.toList = letter :: numeral ∧ Text.WritesNumeral number numeral

theorem NamesWith.letter_unique {a b : Char} {text : String} {m n : Nat} (first : NamesWith a text m)
    (second : NamesWith b text n) : a = b := by
  obtain ⟨_, here, _⟩ := first
  obtain ⟨_, there, _⟩ := second
  exact (List.cons.inj (here.symm.trans there)).1

namespace IdKind

theorem parse?_eq_some_iff {kind : IdKind} {text : String} {index : UInt64} :
    kind.parse? text = some index ↔ NamesWith kind.letter text index.toNat := by
  unfold parse? NamesWith
  cases text.toList with
  | nil => simp
  | cons c numeral =>
    by_cases letter : c = kind.letter
    · simp [letter, Text.word?_eq_some_iff]
    · simp [letter]

theorem parse?_eq_none_iff {kind : IdKind} {text : String} :
    kind.parse? text = none ↔ ∀ number, NamesWith kind.letter text number → UInt64.size ≤ number := by
  rw [Option.eq_none_iff_forall_ne_some]
  constructor
  · intro unread number names
    by_contra small
    have fits : (UInt64.ofNat number).toNat = number := UInt64.toNat_ofNat_of_lt' (Nat.lt_of_not_le small)
    exact unread (.ofNat number) (parse?_eq_some_iff.mpr (fits.symm ▸ names))
  · intro large index read
    exact absurd (large _ (parse?_eq_some_iff.mp read)) (Nat.not_le_of_lt index.toNat_lt)

/-- Ids of a kind are read from exactly the texts that name them with the letter, and their own texts are among
these. A text that is refused is named in the error. -/
structure Exact {Id : Type} (kind : IdKind) (letter : Char) (index : Id → UInt64) (text : Id → String)
    (ofText : String → Except MalformedId Id) : Prop where
  accepts : ∀ s id, ofText s = .ok id ↔ NamesWith letter s (index id).toNat
  refuses : ∀ s e, ofText s = .error e ↔
    e = ⟨kind, s⟩ ∧ ∀ number, NamesWith letter s number → UInt64.size ≤ number
  reads_text : ∀ id, ofText (text id) = .ok id
  text_injective : Function.Injective text

theorem exact_of_parse? {Id : Type} {kind : IdKind} {index : Id → UInt64} {make : UInt64 → Id} {text : Id → String}
    {ofText : String → Except MalformedId Id} (index_make : ∀ n, index (make n) = n)
    (make_index : ∀ id, make (index id) = id) (written : ∀ id, text id = kind.render (index id))
    (read : ∀ s, ofText s = ((kind.parse? s).map make).elim (.error ⟨kind, s⟩) .ok) :
    kind.Exact kind.letter index text ofText := by
  have reads_text (id : Id) : ofText (text id) = .ok id := by
    rw [read, written, parse?_render, Option.map_some, make_index]
    rfl
  constructor
  case accepts =>
    intro s id
    rw [read, ← parse?_eq_some_iff]
    cases kind.parse? s with
    | none => exact ⟨(nomatch ·), (nomatch ·)⟩
    | some n =>
      constructor
      · rintro ⟨⟩
        exact congrArg some (index_make n).symm
      · rintro ⟨⟩
        exact congrArg Except.ok (make_index id)
  case refuses =>
    intro s e
    rw [read, ← parse?_eq_none_iff]
    cases kind.parse? s with
    | none => exact ⟨fun refused => ⟨(Except.error.inj refused).symm, rfl⟩, fun ⟨same, _⟩ => same ▸ rfl⟩
    | some n => exact ⟨(nomatch ·), fun ⟨_, absent⟩ => nomatch absent⟩
  case reads_text => exact reads_text
  case text_injective =>
    intro a b same
    have back := congrArg ofText same
    rw [reads_text, reads_text] at back
    exact Except.ok.inj back

end IdKind

theorem NodeId.ofText_eq (s : String) : ofText s = ((IdKind.node.parse? s).map mk).elim (.error ⟨.node, s⟩) .ok := by
  unfold ofText parse?
  cases IdKind.node.parse? s <;> rfl

theorem EdgeId.ofText_eq (s : String) : ofText s = ((IdKind.edge.parse? s).map mk).elim (.error ⟨.edge, s⟩) .ok := by
  unfold ofText parse?
  cases IdKind.edge.parse? s <;> rfl

/-- Exactly the texts that name an id by its letter and a numeral are read as this id. Each id is read from its own
text, and no text is read both as an id of a node and as one of an edge. -/
theorem id_texts_exact :
    IdKind.node.Exact 'n' NodeId.index NodeId.text NodeId.ofText ∧
      IdKind.edge.Exact 'e' EdgeId.index EdgeId.text EdgeId.ofText ∧
      (∀ s n e, NodeId.ofText s = .ok n → EdgeId.ofText s ≠ .ok e) ∧
      ∀ (n : NodeId) (e : EdgeId), n.text ≠ e.text := by
  have nodes : IdKind.node.Exact 'n' NodeId.index NodeId.text NodeId.ofText :=
    IdKind.exact_of_parse? (fun _ => rfl) (fun _ => rfl) (fun _ => rfl) NodeId.ofText_eq
  have edges : IdKind.edge.Exact 'e' EdgeId.index EdgeId.text EdgeId.ofText :=
    IdKind.exact_of_parse? (fun _ => rfl) (fun _ => rfl) (fun _ => rfl) EdgeId.ofText_eq
  have apart (s : String) (n : NodeId) (e : EdgeId) (asNode : NodeId.ofText s = .ok n) : EdgeId.ofText s ≠ .ok e := by
    intro asEdge
    have letters := ((nodes.accepts s n).mp asNode).letter_unique ((edges.accepts s e).mp asEdge)
    cases letters
  refine ⟨nodes, edges, apart, fun n e same => ?_⟩
  exact apart n.text n e (nodes.reads_text n) (same ▸ edges.reads_text e)

/-- A sign and zeros in front are read, and the least number that no word holds is not. -/
example : NodeId.ofText "n+007" = .ok ⟨7⟩ ∧
    EdgeId.ofText "e18446744073709551616" = .error ⟨.edge, "e18446744073709551616"⟩ := by decide +kernel

end GraphGrammar
