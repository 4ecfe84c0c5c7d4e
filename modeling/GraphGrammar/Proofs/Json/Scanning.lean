import GraphGrammar.Json.Token
import GraphGrammar.Json.Writer

/-!
How texts are cut into tokens where they are put together. Text that settles leaves nothing open behind
it. Text that only writes its tokens may end in a word, which the next character has to end.
-/

namespace GraphGrammar.Json.Token

/-- Scanning the text adds the tokens, if the word at its end is ended. -/
def Writes (cs : List Char) (ts : List Token) : Prop :=
  ∀ tokens, (cs.foldl step ⟨tokens, .idle⟩).endWord = ⟨ts.reverse ++ tokens, .idle⟩

/-- Scanning the text adds the tokens and leaves no word open. -/
def Settles (cs : List Char) (ts : List Token) : Prop :=
  ∀ tokens, cs.foldl step ⟨tokens, .idle⟩ = ⟨ts.reverse ++ tokens, .idle⟩

variable {cs ds : List Char} {ts us : List Token}

theorem Settles.writes (settles : Settles cs ts) : Writes cs ts := by
  intro tokens
  rw [settles tokens]
  rfl

theorem settles_nil : Settles [] [] := fun _ => rfl

/-- A scan that can be ended goes on as if it had been, once a character ends the word. -/
theorem step_of_endWord {scan : Scan} {tokens : List Token} (ended : scan.endWord = ⟨tokens, .idle⟩)
    {c : Char} (ends : endsWord c = true) : step scan c = outside tokens c := by
  obtain ⟨before, mode⟩ := scan
  cases mode with
  | idle =>
    cases ended
    rfl
  | word cs =>
    simp only [step, if_pos ends]
    rw [ended]
    rfl
  | text | escape | hex | stopped => cases ended

theorem Settles.append_writes (first : Settles cs ts) (rest : Writes ds us) :
    Writes (cs ++ ds) (ts ++ us) := by
  intro tokens
  rw [List.foldl_append, first tokens, rest, List.reverse_append, List.append_assoc]

theorem Settles.append (first : Settles cs ts) (rest : Settles ds us) :
    Settles (cs ++ ds) (ts ++ us) := by
  intro tokens
  rw [List.foldl_append, first tokens, rest, List.reverse_append, List.append_assoc]

/-- What ends a word settles what is before it. -/
theorem Writes.append_settles {c : Char} (first : Writes cs ts) (ends : endsWord c = true)
    (rest : Settles (c :: ds) us) : Settles (cs ++ c :: ds) (ts ++ us) := by
  intro tokens
  have continued := rest (ts.reverse ++ tokens)
  rw [List.foldl_cons] at continued
  rw [List.foldl_append, List.foldl_cons, step_of_endWord (first tokens) ends, List.reverse_append,
    List.append_assoc]
  exact continued

theorem ofText_of_writes (writes : Writes cs ts) : ofText cs = (ts, true) := by
  rw [ofText, Scan.finish, writes [], List.append_nil, List.reverse_reverse]
  rfl

def InWord (cs : List Char) : Prop := ∀ c ∈ cs, endsWord c = false

instance (cs : List Char) : Decidable (InWord cs) :=
  List.decidableBAll (fun c => endsWord c = false) cs

theorem outside_of_word {c : Char} (inWord : endsWord c = false) (tokens : List Token) :
    outside tokens c = ⟨tokens, .word [c]⟩ := by
  simp only [endsWord, Bool.or_eq_false_iff, beq_eq_false_iff_ne] at inWord
  obtain ⟨⟨notBlank, notQuote⟩, plain⟩ := inWord
  have none : punctuation? c = none := by simpa using plain
  simp only [outside, notBlank, Bool.false_eq_true, if_false, if_neg notQuote, none]

theorem foldl_word (inWord : InWord cs) (tokens : List Token) (word : List Char) :
    cs.foldl step ⟨tokens, .word word⟩ = ⟨tokens, .word (cs.reverse ++ word)⟩ := by
  induction cs generalizing word with
  | nil => rfl
  | cons c rest ih =>
    obtain ⟨first, tail⟩ := List.forall_mem_cons.mp inWord
    rw [List.foldl_cons, step]
    simp only [first, Bool.false_eq_true, if_false]
    rw [ih tail, List.reverse_cons, List.append_assoc]
    rfl

theorem foldl_idle_word (nonempty : cs ≠ []) (inWord : InWord cs)
    (tokens : List Token) : cs.foldl step ⟨tokens, .idle⟩ = ⟨tokens, .word cs.reverse⟩ := by
  cases cs with
  | nil => exact absurd rfl nonempty
  | cons c rest =>
    obtain ⟨first, tail⟩ := List.forall_mem_cons.mp inWord
    rw [List.foldl_cons, step]
    simp only [outside_of_word first]
    rw [foldl_word tail, List.reverse_cons]

theorem writes_word {token : Token} (nonempty : cs ≠ []) (inWord : InWord cs)
    (read : ofWord? cs = some (token, [])) : Writes cs [token] := by
  intro tokens
  rw [foldl_idle_word nonempty inWord]
  simp only [Scan.endWord, List.reverse_reverse, read]
  rfl

theorem characters?_map_toNat (cs : List Char) : characters? (cs.map Char.toNat) = some cs := by
  induction cs with
  | nil => rfl
  | cons c rest ih =>
    have valid : c.toNat.isValidChar := c.valid
    cases rest with
    | nil =>
      rw [List.map_cons, List.map_nil, characters?, if_pos valid, Char.ofNat_toNat]
    | cons d rest =>
      have plain : isHighSurrogate c.toNat = false := by
        rw [isHighSurrogate, Bool.and_eq_false_iff, decide_eq_false_iff_not, decide_eq_false_iff_not]
        unfold Nat.isValidChar at valid
        omega
      rw [List.map_cons] at ih
      rw [List.map_cons, List.map_cons, characters?]
      simp only [plain, Bool.false_eq_true, if_false, if_pos valid, ih, Char.ofNat_toNat]
      rfl

theorem hexDigit?_digitChar {n : Nat} (small : n < 16) : hexDigit? n.digitChar = some n := by
  have all : ∀ n < 16, hexDigit? n.digitChar = some n := by decide
  exact all n small

theorem foldl_writtenChar (c : Char) (tokens : List Token) (points : List Nat) :
    (writtenChar c).foldl step ⟨tokens, .text points⟩ = ⟨tokens, .text (c.toNat :: points)⟩ := by
  unfold writtenChar
  split
  · rfl
  · rfl
  · rfl
  · rfl
  · rfl
  · rfl
  · rfl
  · next quote backslash _ _ _ _ _ =>
    split
    · next control =>
      have high : c.toNat / 16 < 16 := by omega
      have low : c.toNat % 16 < 16 := by omega
      have value : (c.toNat / 16) * 16 + c.toNat % 16 = c.toNat := by omega
      rw [Text.hexadecimal, Text.hexadecimal, Nat.toDigits_of_lt_base high,
        Nat.toDigits_of_lt_base low]
      simp only [List.cons_append, List.nil_append, List.foldl_cons, List.foldl_nil]
      have zero : hexDigit? '0' = some 0 := by decide
      simp only [step, zero, hexDigit?_digitChar high, hexDigit?_digitChar low]
      simp [value]
    · next printable =>
      simp only [List.foldl_cons, List.foldl_nil, step, if_neg quote, if_neg backslash,
        if_neg printable]

theorem foldl_writtenChars (cs : List Char) (tokens : List Token) (points : List Nat) :
    (cs.flatMap writtenChar).foldl step ⟨tokens, .text points⟩ =
      ⟨tokens, .text ((cs.map Char.toNat).reverse ++ points)⟩ := by
  induction cs generalizing points with
  | nil => rfl
  | cons c rest ih =>
    rw [List.flatMap_cons, List.foldl_append, foldl_writtenChar, ih, List.map_cons, List.reverse_cons,
      List.append_assoc]
    rfl

theorem settles_writtenString (s : String) : Settles (writtenString s).toList [.string (some s)] := by
  intro tokens
  have points : ofPoints (s.toList.map Char.toNat).reverse = .string (some s) := by
    rw [ofPoints, List.reverse_reverse, characters?_map_toNat, Option.map_some, String.ofList_toList]
  rw [writtenString, String.toList_ofList, List.cons_append, List.foldl_cons, List.foldl_append]
  change ['"'].foldl step ((s.toList.flatMap writtenChar).foldl step ⟨tokens, .text []⟩) = _
  rw [foldl_writtenChars, List.append_nil]
  change (⟨ofPoints (s.toList.map Char.toNat).reverse :: tokens, .idle⟩ : Scan) = _
  rw [points]
  rfl

def separated : List (List Token) → List Token
  | [] => []
  | ts :: rest => ts ++ rest.flatMap (.comma :: ·)

inductive WriteAll : List String → List (List Token) → Prop where
  | nil : WriteAll [] []
  | cons {part : String} {parts : List String} {ts : List Token} {tss : List (List Token)}
    (first : Writes part.toList ts) (rest : WriteAll parts tss) : WriteAll (part :: parts) (ts :: tss)

theorem writes_intercalate (separator : String) {c : Char} {after : List Char}
    (begins : separator.toList = c :: after) (ends : endsWord c = true)
    (comma : Settles (c :: after) [.comma]) {parts : List String} {tss : List (List Token)}
    (all : WriteAll parts tss) : Writes (String.intercalate separator parts).toList (separated tss) := by
  induction all with
  | nil => exact settles_nil.writes
  | @cons part parts ts tss first rest ih =>
    cases rest with
    | nil =>
      rw [String.intercalate_singleton, separated, List.flatMap_nil, List.append_nil]
      exact first
    | @cons next parts us tss second rest =>
      rw [String.intercalate_cons_cons, String.toList_append, String.toList_append, begins, separated]
      have both := (first.append_settles ends comma).append_writes ih
      rw [List.append_assoc ts] at both
      exact both

end GraphGrammar.Json.Token
