import GraphGrammar.Proofs.Json.Reading
import GraphGrammar.Proofs.Json.RoundTrip
import GraphGrammar.Settings.Basic

/-!
Which settings a document stores. A field has the value that stands under its name, or its default value if the name
is absent, and no name stands there twice. Settings are read from exactly the documents that store them, and the text
of settings is such a document.
-/

namespace GraphGrammar

open Json (Tree Reads Numeral greatestDepth haveReadable haveReadable_optionalMember forall_mem_optionalMember)
open Json.Fields (given read_single_eq_ok_iff read_map_eq_ok_iff read_seq_eq_ok_iff)

/-- A value is read from exactly the trees that write it. -/
def Json.Reads.Exactly {α : Type} (read : Reads α) (Writes : α → Tree → Prop) : Prop :=
  ∀ t a, read t = .ok a ↔ Writes a t

def WritesWord (n : UInt64) (t : Tree) : Prop := t = .number (.natural n)

def WritesShortWord (n : UInt32) (t : Tree) : Prop := t = .number (.natural n.toUInt64)

def WritesString (s : String) (t : Tree) : Prop := t = .string s

/-- A value that may be left out, for which null stands then. -/
def WritesOptional {α : Type} (Writes : α → Tree → Prop) (value : Option α) (t : Tree) : Prop :=
  t = .null ∧ value = none ∨ ∃ a, Writes a t ∧ value = some a

def WritesFormat (f : OutputFormat) (t : Tree) : Prop := t = .string f.name ∨ t = .object [(f.name, .null)]

theorem readWord64_exactly : Reads.Exactly Json.readWord64 WritesWord := by
  intro t n
  constructor
  · intro result
    unfold Json.readWord64 at result
    split at result
    · cases result
      rfl
    · exact (Reads.not_ok_of_unexpected result).elim
  · rintro rfl
    rfl

theorem readWord32_exactly : Reads.Exactly Json.readWord32 WritesShortWord := by
  intro t n
  constructor
  · intro result
    unfold Json.readWord32 at result
    split at result
    · next word =>
      split at result
      · next small =>
        cases result
        have same : word.toUInt32.toUInt64 = word := UInt64.toNat.inj <| by
          rw [UInt32.toNat_toUInt64, UInt64.toNat_toUInt32, Nat.mod_eq_of_lt small]
        rw [WritesShortWord, same]
      · cases result
    · exact (Reads.not_ok_of_unexpected result).elim
  · rintro rfl
    have small : n.toUInt64.toNat < UInt32.size := by
      rw [UInt32.toNat_toUInt64]
      exact n.toNat_lt
    simp only [Json.readWord32, if_pos small, UInt32.toUInt32_toUInt64]

theorem readString_exactly : Reads.Exactly Json.readString WritesString := by
  intro t s
  constructor
  · intro result
    unfold Json.readString at result
    split at result
    · cases result
      rfl
    · exact (Reads.not_ok_of_unexpected result).elim
  · rintro rfl
    rfl

theorem readOptional_exactly {α : Type} {read : Reads α} {Writes : α → Tree → Prop}
    (exactly : Reads.Exactly read Writes) (null : ∀ a, ¬Writes a .null) :
    Reads.Exactly (Json.readOptional read) (WritesOptional Writes) := by
  intro t value
  unfold Json.readOptional
  split
  · constructor
    · rintro ⟨⟩
      exact .inl ⟨rfl, rfl⟩
    · rintro (⟨_, rfl⟩ | ⟨a, writes, _⟩)
      · rfl
      · exact absurd writes (null a)
  · next present =>
    constructor
    · intro result
      obtain ⟨a, back, rfl⟩ := ok_of_map result
      exact .inr ⟨a, (exactly t a).mp back, rfl⟩
    · rintro (⟨absent, _⟩ | ⟨a, writes, rfl⟩)
      · exact absurd absent present
      · rw [(exactly t a).mpr writes]
        rfl

namespace OutputFormat

theorem ofName_eq_ok_iff {name : String} {f : OutputFormat} : ofName name = .ok f ↔ name = f.name := by
  constructor
  · intro result
    unfold ofName at result
    split at result
    · next found =>
      cases result
      have same : (f.name == name) = true := List.find?_some (p := fun f : OutputFormat => f.name == name) found
      exact (beq_iff_eq.mp same).symm
    · cases result
  · rintro rfl
    cases f <;> rfl

theorem read_exactly : Reads.Exactly read WritesFormat := by
  intro t f
  constructor
  · intro result
    unfold read at result
    split at result
    · exact .inl (congrArg Tree.string (ofName_eq_ok_iff.mp result))
    · rw [ofName_eq_ok_iff.mp result]
      exact .inr rfl
    · obtain ⟨_, _, result⟩ := ok_of_bind result
      split at result
      · cases result
      · exact (Reads.not_ok_of_unexpected result).elim
    · obtain ⟨_, _, result⟩ := ok_of_bind result
      split at result
      · cases result
      · exact (Reads.not_ok_of_unexpected result).elim
    · exact (Reads.not_ok_of_unexpected result).elim
    · cases result
  · rintro (rfl | rfl) <;> exact ofName_eq_ok_iff.mpr rfl

end OutputFormat

/-- What members store in a field: a value that is written under the name, or the default value if there is none. A
name that comes twice stores nothing. -/
inductive Stores {α : Type} (members : List (String × Tree)) (name : String) (default : α)
    (Writes : α → Tree → Prop) : α → Prop where
  | absent (missing : given name members = []) : Stores members name default Writes default
  | present {t : Tree} {value : α} (one : given name members = [t]) (writes : Writes value t) :
    Stores members name default Writes value

theorem read_single_iff_stores {α : Type} {r : Json.Record} {name : String} {read : Reads α} {default : α}
    {Writes : α → Tree → Prop} (exactly : Reads.Exactly read Writes) (value : α) :
    (Json.Fields.single name read fun _ => .ok default).read r = .ok value ↔
      Stores r.members name default Writes value := by
  rw [read_single_eq_ok_iff]
  constructor
  · rintro (⟨missing, ⟨⟩⟩ | ⟨t, one, back⟩)
    · exact .absent missing
    · exact .present one ((exactly t value).mp back)
  · rintro (missing | ⟨one, writes⟩)
    · exact .inl ⟨missing, rfl⟩
    · exact .inr ⟨_, one, (exactly _ value).mpr writes⟩

theorem stores_nil_iff {α : Type} {name : String} {default value : α} {Writes : α → Tree → Prop} :
    Stores [] name default Writes value ↔ value = default := by
  constructor
  · rintro (_ | ⟨one, _⟩)
    · rfl
    · cases one
  · rintro rfl
    exact .absent rfl

namespace RunSettings

def fieldNames : List String := ["seed", "max_steps", "max_depth", "style", "format"]

structure StoredIn (members : List (String × Tree)) (s : RunSettings) : Prop where
  seed : Stores members "seed" none (WritesOptional WritesWord) s.seed
  maxSteps : Stores members "max_steps" 10000 WritesWord s.maxSteps
  maxDepth : Stores members "max_depth" 3 WritesShortWord s.maxDepth
  style : Stores members "style" "dungeon" WritesString s.style
  format : Stores members "format" .summary WritesFormat s.format

theorem read_eq_ok_iff {t : Tree} {s : RunSettings} :
    read t = .ok s ↔ ∃ r, t.record? fieldNames = some r ∧ s.StoredIn r.members := by
  have optional := readOptional_exactly readWord64_exactly fun _ null => nomatch null
  unfold read
  rw [Json.readRecord_eq_ok_iff]
  refine exists_congr fun r => and_congr_right fun _ => ?_
  simp only [read_seq_eq_ok_iff, read_map_eq_ok_iff, Json.Fields.optional, Json.Fields.withDefault,
    read_single_iff_stores optional, read_single_iff_stores readWord64_exactly,
    read_single_iff_stores readWord32_exactly, read_single_iff_stores readString_exactly,
    read_single_iff_stores OutputFormat.read_exactly]
  constructor
  · rintro ⟨_, _, ⟨_, _, ⟨_, _, ⟨_, _, ⟨_, seed, rfl⟩, maxSteps, rfl⟩, maxDepth, rfl⟩, style, rfl⟩, format, rfl⟩
    exact ⟨seed, maxSteps, maxDepth, style, format⟩
  · rintro ⟨seed, maxSteps, maxDepth, style, format⟩
    exact ⟨_, _, ⟨_, _, ⟨_, _, ⟨_, _, ⟨_, seed, rfl⟩, maxSteps, rfl⟩, maxDepth, rfl⟩, style, rfl⟩, format, rfl⟩

theorem ofText_eq_ok_iff {text : String} {s : RunSettings} : ofText text = .ok s ↔
    ∃ t r, Tree.ofText? text = some t ∧ t.record? fieldNames = some r ∧ s.StoredIn r.members := by
  rw [ofText, Json.readText_eq_ok_iff]
  simp only [read_eq_ok_iff, exists_and_left]

theorem storedIn_nil_iff {s : RunSettings} : s.StoredIn [] ↔ s = {} := by
  constructor
  · rintro ⟨seed, maxSteps, maxDepth, style, format⟩
    rw [stores_nil_iff] at seed maxSteps maxDepth style format
    calc
      s = ⟨s.seed, s.maxSteps, s.maxDepth, s.style, s.format⟩ := rfl
      _ = {} := by rw [seed, maxSteps, maxDepth, style, format]
  · rintro rfl
    exact ⟨.absent rfl, .absent rfl, .absent rfl, .absent rfl, .absent rfl⟩

theorem storedIn_toTree (s : RunSettings) :
    ∃ r, s.toTree.record? fieldNames = some r ∧ s.StoredIn r.members := by
  refine ⟨_, rfl, ?_⟩
  constructor
  case seed =>
    cases s.seed with
    | none => exact .absent (by simp)
    | some n => exact .present (t := .number (.natural n)) (by simp) (.inr ⟨n, rfl, rfl⟩)
  case maxSteps => exact .present (by simp) rfl
  case maxDepth => exact .present (by simp) rfl
  case style => exact .present (by simp) rfl
  case format => exact .present (by simp) (.inl rfl)

theorem ofText?_text (s : RunSettings) : Tree.ofText? s.text = some s.toTree := by
  have readable : s.toTree.isReadable = true := by
    have seed : haveReadable (Json.optionalMember "seed" (fun n => .number (.natural n)) s.seed) = true :=
      haveReadable_optionalMember fun _ => rfl
    simp [toTree, Tree.isReadable, haveReadable, seed]
  have within : s.toTree.Within Numeral.Scans greatestDepth := by
    have word (n : UInt64) : (Tree.number (.natural n)).Within Numeral.Scans 126 := .number (Numeral.writes_natural n)
    have seed : ∀ m ∈ Json.optionalMember "seed" (fun n => .number (.natural n)) s.seed,
        m.2.Within Numeral.Scans 126 := forall_mem_optionalMember.mpr fun n _ => word n
    refine .object (List.forall_mem_append.mpr ⟨seed, ?_⟩)
    simp only [List.forall_mem_cons]
    exact ⟨word _, word _, .string, .string, fun _ member => absurd member List.not_mem_nil⟩
  exact Json.ofText?_pretty readable within

theorem ofText_text (s : RunSettings) : ofText s.text = .ok s := by
  obtain ⟨r, record, stored⟩ := s.storedIn_toTree
  exact ofText_eq_ok_iff.mpr ⟨_, r, s.ofText?_text, record, stored⟩

theorem text_ne_empty (s : RunSettings) : s.text ≠ "" := by
  intro empty
  have parses := s.ofText?_text
  rw [empty] at parses
  cases parses

end RunSettings

end GraphGrammar
