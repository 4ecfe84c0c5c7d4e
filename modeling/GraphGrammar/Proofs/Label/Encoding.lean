import GraphGrammar.Graph.Digest

/-!
The bytes of a label say where they end. Whatever bytes follow, the label and the rest can be told apart,
so the bytes of two labels differ, and neither is a beginning of the other. A length is written in eight
bytes, and this holds as long as it fits into them.
-/

namespace GraphGrammar

/-- A way to write things such that what is written ends where it says: what stands behind it does not
change how it is read. -/
def SelfDelimiting {α σ : Type} (write : α → List σ) (P : α → Prop) : Prop :=
  ∀ ⦃a b : α⦄ ⦃rest rest' : List σ⦄, P a → P b → write a ++ rest = write b ++ rest' →
    a = b ∧ rest = rest'

namespace SelfDelimiting

variable {α σ : Type} {write : α → List σ} {P : α → Prop}

theorem of_length {n : Nat} (length : ∀ a, (write a).length = n)
    (inj : ∀ {a b}, P a → P b → write a = write b → a = b) : SelfDelimiting write P := by
  intro a b rest rest' okA okB same
  obtain ⟨head, tail⟩ := List.append_inj same ((length a).trans (length b).symm)
  exact ⟨inj okA okB head, tail⟩

theorem flatMap (delimits : SelfDelimiting write P) {as bs : List α} (okA : ∀ a ∈ as, P a)
    (okB : ∀ b ∈ bs, P b) (length : as.length = bs.length) {rest rest' : List σ}
    (same : as.flatMap write ++ rest = bs.flatMap write ++ rest') : as = bs ∧ rest = rest' := by
  induction as generalizing bs with
  | nil =>
    cases List.length_eq_zero_iff.mp length.symm
    exact ⟨rfl, same⟩
  | cons a as ih =>
    cases bs with
    | nil => cases length
    | cons b bs =>
      obtain ⟨firstA, laterA⟩ := List.forall_mem_cons.mp okA
      obtain ⟨firstB, laterB⟩ := List.forall_mem_cons.mp okB
      rw [List.flatMap_cons, List.flatMap_cons, List.append_assoc, List.append_assoc] at same
      obtain ⟨rfl, later⟩ := delimits firstA firstB same
      obtain ⟨rfl, tail⟩ := ih laterA laterB (Nat.succ.inj length) later
      exact ⟨rfl, tail⟩

/-- Nothing is written that something else begins with. -/
theorem eq_of_prefix (delimits : SelfDelimiting write P) {a b : α} (okA : P a) (okB : P b)
    (begins : write a <+: write b) : a = b := by
  obtain ⟨rest, same⟩ := begins
  rw [← List.append_nil (write b)] at same
  exact (delimits okA okB same).1

end SelfDelimiting

theorem length_wordBytes (w : UInt64) : (wordBytes w).length = 8 := by
  rw [wordBytes, List.length_map, List.length_range]

theorem toNat_wordByte (w : UInt64) {i : Nat} (inside : i < 8) :
    ((w >>> UInt64.ofNat (8 * i)).toUInt8).toNat = (w.toNat >>> (8 * i)) % 256 := by
  have small : 8 * i < UInt64.size := by
    change 8 * i < 2 ^ 64
    omega
  have shift : (UInt64.ofNat (8 * i)).toNat % 64 = 8 * i := by
    rw [UInt64.toNat_ofNat_of_lt' small]
    omega
  rw [UInt64.toNat_toUInt8, UInt64.toNat_shiftRight, shift]

theorem wordBytes_inj {v w : UInt64} (same : wordBytes v = wordBytes w) : v = w := by
  have byte (i : Nat) (inside : i < 8) :
      (v.toNat >>> (8 * i)) % 256 = (w.toNat >>> (8 * i)) % 256 := by
    have here := List.map_inj_left.mp same i (List.mem_range.mpr inside)
    rw [← toNat_wordByte v inside, here, toNat_wordByte w inside]
  have low : v.toNat % 2 ^ 32 = w.toNat % 2 ^ 32 := by
    have b0 := byte 0 (by decide)
    have b1 := byte 1 (by decide)
    have b2 := byte 2 (by decide)
    have b3 := byte 3 (by decide)
    omega
  have high : v.toNat / 2 ^ 32 = w.toNat / 2 ^ 32 := by
    have b4 := byte 4 (by decide)
    have b5 := byte 5 (by decide)
    have b6 := byte 6 (by decide)
    have b7 := byte 7 (by decide)
    have boundV := v.toNat_lt
    have boundW := w.toNat_lt
    omega
  apply UInt64.toNat_inj.mp
  rw [← Nat.div_add_mod v.toNat (2 ^ 32), high, low, Nat.div_add_mod]

theorem selfDelimiting_wordBytes : SelfDelimiting wordBytes fun _ => True :=
  .of_length length_wordBytes fun _ _ => wordBytes_inj

theorem selfDelimiting_lengthBytes : SelfDelimiting lengthBytes (· < UInt64.size) := by
  refine .of_length (fun n => length_wordBytes _) fun {m n} smallM smallN same => ?_
  have word := congrArg UInt64.toNat (wordBytes_inj same)
  rwa [UInt64.toNat_ofNat_of_lt' smallM, UInt64.toNat_ofNat_of_lt' smallN] at word

theorem toList_loop (bytes : ByteArray) (i : Nat) (read : List UInt8) :
    ByteArray.toList.loop bytes i read = read.reverse ++ bytes.data.toList.drop i := by
  fun_induction ByteArray.toList.loop bytes i read with
  | case1 i read inside ih =>
    have present : i < bytes.data.toList.length := inside
    have byte : bytes.get! i = bytes.data.toList[i] := getElem!_pos bytes.data i inside
    rw [ih, List.drop_eq_getElem_cons present, List.reverse_cons, List.append_assoc, byte]
    rfl
  | case2 i read outside =>
    rw [List.drop_eq_nil_of_le (Nat.le_of_not_lt outside), List.append_nil]

theorem toList_eq (bytes : ByteArray) : bytes.toList = bytes.data.toList := toList_loop bytes 0 []

theorem selfDelimiting_stringBytes :
    SelfDelimiting stringBytes fun s => s.utf8ByteSize < UInt64.size := by
  intro s t rest rest' smallS smallT same
  have length (s : String) : s.toUTF8.toList.length = s.utf8ByteSize := by
    rw [toList_eq]
    rfl
  simp only [stringBytes, List.append_assoc] at same
  obtain ⟨size, same⟩ := selfDelimiting_lengthBytes smallS smallT same
  obtain ⟨bytes, tail⟩ := List.append_inj same (by rw [length, length, size])
  rw [toList_eq, toList_eq] at bytes
  exact ⟨String.toByteArray_inj.mp (ByteArray.ext (Array.toList_inj.mp bytes)), tail⟩

mutual

def Value.lengths : Value → List Nat
  | .bool _ | .num _ => []
  | .str s => [s.utf8ByteSize]
  | .list items => items.length :: lengthsOfItems items
  | .map entries => entries.length :: lengthsOfEntries entries
termination_by structural v => v

def lengthsOfItems : List Value → List Nat
  | [] => []
  | v :: rest => v.lengths ++ lengthsOfItems rest
termination_by structural vs => vs

def lengthsOfEntries : List (String × Value) → List Nat
  | [] => []
  | (key, v) :: rest => key.utf8ByteSize :: v.lengths ++ lengthsOfEntries rest
termination_by structural es => es

end

def FitWords (lengths : List Nat) : Prop := ∀ n ∈ lengths, n < UInt64.size

instance (lengths : List Nat) : Decidable (FitWords lengths) :=
  inferInstanceAs (Decidable (∀ n ∈ lengths, n < UInt64.size))

theorem fitWords_cons {n : Nat} {lengths : List Nat} :
    FitWords (n :: lengths) ↔ n < UInt64.size ∧ FitWords lengths := List.forall_mem_cons

theorem fitWords_append {lengths more : List Nat} :
    FitWords (lengths ++ more) ↔ FitWords lengths ∧ FitWords more := List.forall_mem_append

mutual

/-- The bytes of a value, and so those of lists and entries of a known length, say where they end. -/
theorem Value.bytes_append_inj : (v w : Value) → FitWords v.lengths → FitWords w.lengths →
    {rest rest' : List UInt8} → v.bytes ++ rest = w.bytes ++ rest' → v = w ∧ rest = rest'
  | .bool b, w, _, _, rest, rest', same => by
    cases w with
    | bool c =>
      simp only [Value.bytes, List.cons_append, List.nil_append, List.cons.injEq, true_and] at same
      obtain ⟨flag, tail⟩ := same
      cases b <;> cases c <;> first | exact ⟨rfl, tail⟩ | cases flag
    | num | str | list | map => exact absurd (List.cons.inj same).1 (by decide)
  | .num x, w, _, _, rest, rest', same => by
    cases w with
    | num y =>
      obtain ⟨bits, tail⟩ := selfDelimiting_wordBytes trivial trivial (List.cons.inj same).2
      exact ⟨congrArg (fun bits => Value.num ⟨bits⟩) bits, tail⟩
    | bool | str | list | map => exact absurd (List.cons.inj same).1 (by decide)
  | .str s, w, fits, fits', rest, rest', same => by
    cases w with
    | str t =>
      obtain ⟨rfl, tail⟩ := selfDelimiting_stringBytes (fits _ (.head _)) (fits' _ (.head _))
        (List.cons.inj same).2
      exact ⟨rfl, tail⟩
    | bool | num | list | map => exact absurd (List.cons.inj same).1 (by decide)
  | .list items, w, fits, fits', rest, rest', same => by
    cases w with
    | list more =>
      obtain ⟨length, inside⟩ := fitWords_cons.mp fits
      obtain ⟨length', inside'⟩ := fitWords_cons.mp fits'
      simp only [Value.bytes, List.cons_append, List.append_assoc, List.cons.injEq, true_and] at same
      obtain ⟨count, later⟩ := selfDelimiting_lengthBytes length length' same
      obtain ⟨rfl, tail⟩ := itemsBytes_append_inj items more inside inside' count later
      exact ⟨rfl, tail⟩
    | bool | num | str | map => exact absurd (List.cons.inj same).1 (by decide)
  | .map entries, w, fits, fits', rest, rest', same => by
    cases w with
    | map more =>
      obtain ⟨length, inside⟩ := fitWords_cons.mp fits
      obtain ⟨length', inside'⟩ := fitWords_cons.mp fits'
      simp only [Value.bytes, List.cons_append, List.append_assoc, List.cons.injEq, true_and] at same
      obtain ⟨count, later⟩ := selfDelimiting_lengthBytes length length' same
      obtain ⟨rfl, tail⟩ := entriesBytes_append_inj entries more inside inside' count later
      exact ⟨rfl, tail⟩
    | bool | num | str | list => exact absurd (List.cons.inj same).1 (by decide)
termination_by structural v => v

theorem itemsBytes_append_inj : (items more : List Value) → FitWords (lengthsOfItems items) →
    FitWords (lengthsOfItems more) → items.length = more.length → {rest rest' : List UInt8} →
      itemsBytes items ++ rest = itemsBytes more ++ rest' → items = more ∧ rest = rest'
  | [], [], _, _, _, _, _, same => ⟨rfl, same⟩
  | [], _ :: _, _, _, count, _, _, _ => nomatch count
  | _ :: _, [], _, _, count, _, _, _ => nomatch count
  | v :: items, w :: more, fits, fits', count, rest, rest', same => by
    obtain ⟨first, later⟩ := fitWords_append.mp fits
    obtain ⟨first', later'⟩ := fitWords_append.mp fits'
    simp only [itemsBytes, List.append_assoc] at same
    obtain ⟨rfl, behind⟩ := Value.bytes_append_inj v w first first' same
    obtain ⟨rfl, tail⟩ := itemsBytes_append_inj items more later later' (Nat.succ.inj count) behind
    exact ⟨rfl, tail⟩
termination_by structural items => items

theorem entriesBytes_append_inj : (entries more : List (String × Value)) →
    FitWords (lengthsOfEntries entries) → FitWords (lengthsOfEntries more) →
      entries.length = more.length → {rest rest' : List UInt8} →
        entriesBytes entries ++ rest = entriesBytes more ++ rest' → entries = more ∧ rest = rest'
  | [], [], _, _, _, _, _, same => ⟨rfl, same⟩
  | [], _ :: _, _, _, count, _, _, _ => nomatch count
  | _ :: _, [], _, _, count, _, _, _ => nomatch count
  | (key, v) :: entries, (key', w) :: more, fits, fits', count, rest, rest', same => by
    obtain ⟨size, inside⟩ := fitWords_cons.mp fits
    obtain ⟨size', inside'⟩ := fitWords_cons.mp fits'
    obtain ⟨first, later⟩ := fitWords_append.mp inside
    obtain ⟨first', later'⟩ := fitWords_append.mp inside'
    simp only [entriesBytes, List.append_assoc] at same
    obtain ⟨rfl, value⟩ := selfDelimiting_stringBytes size size' same
    obtain ⟨rfl, behind⟩ := Value.bytes_append_inj v w first first' value
    obtain ⟨rfl, tail⟩ := entriesBytes_append_inj entries more later later' (Nat.succ.inj count) behind
    exact ⟨rfl, tail⟩
termination_by structural entries => entries

end

def Label.lengths (label : Label) : List Nat := label.toValue.lengths

theorem Label.selfDelimiting_bytes : SelfDelimiting Label.bytes fun l => FitWords l.lengths := by
  intro l m rest rest' fits fits' same
  -- A label is written like a value that holds it, but for the tag.
  have tagged : l.toValue.bytes ++ rest = m.toValue.bytes ++ rest' := congrArg (4 :: ·) same
  obtain ⟨value, tail⟩ := Value.bytes_append_inj l.toValue m.toValue fits fits' tagged
  exact ⟨Label.toValue_injective value, tail⟩

end GraphGrammar
