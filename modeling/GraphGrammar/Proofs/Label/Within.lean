import GraphGrammar.Proofs.Label.Reading

/-!
How deep labels are and which numbers stand in them. A merge makes no label deeper than the label and
its patch are, and brings in no other numbers than theirs.
-/

namespace GraphGrammar

mutual

/-- The numbers in a value, in the order in which they stand there. -/
def Value.numbers : Value → List Number
  | .bool _ | .str _ => []
  | .num x => [x]
  | .list items => numbersOfItems items
  | .map entries => numbersOfEntries entries
termination_by structural v => v

def numbersOfItems : List Value → List Number
  | [] => []
  | v :: rest => v.numbers ++ numbersOfItems rest
termination_by structural vs => vs

def numbersOfEntries : List (String × Value) → List Number
  | [] => []
  | (_, v) :: rest => v.numbers ++ numbersOfEntries rest
termination_by structural es => es

end

theorem mem_numbersOfItems {x : Number} {items : List Value} :
    x ∈ numbersOfItems items ↔ ∃ v ∈ items, x ∈ v.numbers := by
  induction items with
  | nil => exact ⟨fun absent => (nomatch absent), fun ⟨_, absent, _⟩ => nomatch absent⟩
  | cons v rest ih => simp only [numbersOfItems, List.mem_append, ih, List.mem_cons, exists_eq_or_imp]

theorem mem_numbersOfEntries {x : Number} {entries : List (String × Value)} :
    x ∈ numbersOfEntries entries ↔ ∃ e ∈ entries, x ∈ e.2.numbers := by
  induction entries with
  | nil => exact ⟨fun absent => (nomatch absent), fun ⟨_, absent, _⟩ => nomatch absent⟩
  | cons e rest ih => simp only [numbersOfEntries, List.mem_append, ih, List.mem_cons, exists_eq_or_imp]

namespace Value

/-- At most the given number of lists and labels are inside one another, and all numbers have the
property. -/
inductive Within (P : Number → Prop) : Nat → Value → Prop where
  | bool {levels : Nat} (b : Bool) : Within P levels (.bool b)
  | num {levels : Nat} {x : Number} (ok : P x) : Within P levels (.num x)
  | str {levels : Nat} (s : String) : Within P levels (.str s)
  | list {levels : Nat} {items : List Value} (parts : ∀ v ∈ items, Within P levels v) :
    Within P (levels + 1) (.list items)
  | map {levels : Nat} {entries : Entries} (parts : ∀ e ∈ entries, Within P levels e.2) :
    Within P (levels + 1) (.map entries)

variable {P Q : Number → Prop} {few many : Nat}

namespace Within

theorem mono {v : Value} (within : v.Within P few) (le : few ≤ many) : v.Within P many := by
  induction within generalizing many with
  | bool b => exact .bool b
  | num ok => exact .num ok
  | str s => exact .str s
  | list _ ih =>
    cases many with
    | zero => cases le
    | succ many => exact .list fun v member => ih v member (Nat.le_of_succ_le_succ le)
  | map _ ih =>
    cases many with
    | zero => cases le
    | succ many => exact .map fun e member => ih e member (Nat.le_of_succ_le_succ le)

theorem of_mem_numbers {v : Value} (within : v.Within P few) {x : Number} (member : x ∈ v.numbers) :
    P x := by
  induction within with
  | bool => cases member
  | num ok =>
    cases List.mem_singleton.mp member
    exact ok
  | str => cases member
  | list _ ih =>
    obtain ⟨v, listed, inside⟩ := mem_numbersOfItems.mp member
    exact ih v listed inside
  | map _ ih =>
    obtain ⟨e, listed, inside⟩ := mem_numbersOfEntries.mp member
    exact ih e listed inside

theorem of_numbers {v : Value} (within : v.Within P few) (numbers : ∀ x ∈ v.numbers, Q x) :
    v.Within Q few := by
  induction within with
  | bool b => exact .bool b
  | num _ => exact .num (numbers _ List.mem_cons_self)
  | str s => exact .str s
  | list _ ih =>
    exact .list fun v member => ih v member fun x inside =>
      numbers x (mem_numbersOfItems.mpr ⟨v, member, inside⟩)
  | map _ ih =>
    exact .map fun e member => ih e member fun x inside =>
      numbers x (mem_numbersOfEntries.mpr ⟨e, member, inside⟩)

end Within

end Value

namespace Entries

def Within (P : Number → Prop) (levels : Nat) (entries : Entries) : Prop :=
  ∀ e ∈ entries, e.2.Within P levels

variable {P : Number → Prop} {levels : Nat} {entries : Entries}

theorem within_of_find? {key : String} {v : Value} (within : Entries.Within P levels entries)
    (found : find? key entries = some v) : v.Within P levels := by
  induction entries with
  | nil => cases found
  | cons e rest ih =>
    obtain ⟨first, tail⟩ := List.forall_mem_cons.mp within
    rw [find?] at found
    split at found
    · cases found
      exact first
    · exact ih tail found

theorem within_insert (within : Entries.Within P levels entries) {v : Value}
    (value : v.Within P levels) (key : String) : Entries.Within P levels (insert key v entries) := by
  induction entries with
  | nil => exact List.forall_mem_singleton.mpr value
  | cons e rest ih =>
    obtain ⟨first, tail⟩ := List.forall_mem_cons.mp within
    rw [insert]
    split
    · exact List.forall_mem_cons.mpr ⟨value, tail⟩
    · split
      · exact List.forall_mem_cons.mpr ⟨value, within⟩
      · exact List.forall_mem_cons.mpr ⟨first, ih tail⟩

end Entries

section

variable {P : Number → Prop}

mutual

theorem Value.within_sorted {levels : Nat} :
    (value : Value) → value.Within P levels → value.sorted.Within P levels
  | .bool _, h => h
  | .num _, h => h
  | .str _, h => h
  | .list items, h => by
    cases h with
    | list parts => exact .list (within_sortedItems items parts)
  | .map entries, h => by
    cases h with
    | map parts => exact .map (@within_insertEntries _ [] (List.forall_mem_nil _) entries parts)
termination_by structural value => value

theorem within_sortedItems {levels : Nat} :
    (items : List Value) → (∀ v ∈ items, v.Within P levels) → ∀ v ∈ sortedItems items, v.Within P levels
  | [], h => h
  | v :: rest, h =>
    List.forall_mem_cons.mpr ⟨v.within_sorted (List.forall_mem_cons.mp h).1,
      within_sortedItems rest (List.forall_mem_cons.mp h).2⟩
termination_by structural items => items

theorem within_insertEntries {levels : Nat} {base : Entries} (within : Entries.Within P levels base) :
    (entries : List (String × Value)) → Entries.Within P levels entries →
      Entries.Within P levels (insertEntries base entries)
  | [], _ => within
  | (key, v) :: rest, h => by
    obtain ⟨first, tail⟩ := List.forall_mem_cons.mp h
    exact within_insertEntries (Entries.within_insert within (v.within_sorted first) key) rest tail
termination_by structural entries => entries

end

mutual

theorem Value.within_mergeOver {levels : Nat} {slot : Option Value}
    (old : ∀ v ∈ slot, v.Within P levels) :
    (value : Value) → value.Within P levels → (value.mergeOver slot).Within P levels
  | .bool _, h => h
  | .num _, h => h
  | .str _, h => h
  | .list _, h => h
  | .map patch, h => by
    cases levels with
    | zero => cases h
    | succ levels =>
      have base := Value.map_under (.map fun _ absent => nomatch absent) old
      cases base with
      | map base =>
        cases h with
        | map parts => exact .map (within_mergeEntries base patch parts)
termination_by structural value => value

theorem within_mergeEntries {levels : Nat} {base : Entries}
    (within : Entries.Within P levels base) :
    (patch : List (String × Value)) → Entries.Within P levels patch →
      Entries.Within P levels (mergeEntries base patch)
  | [], _ => within
  | (key, value) :: rest, h => by
    obtain ⟨first, tail⟩ := List.forall_mem_cons.mp h
    have written : (value.mergeOver (Entries.find? key base)).Within P levels :=
      Value.within_mergeOver (fun v found => Entries.within_of_find? within found) value first
    exact within_mergeEntries (Entries.within_insert within written key) rest tail
termination_by structural patch => patch

end

mutual

theorem Value.within_mapStrings {levels : Nat} (f : String → Option String) :
    (value : Value) → value.Within P levels → (value.mapStrings f).Within P levels
  | .bool _, h => h
  | .num _, h => h
  | .str _, _ => .str _
  | .list items, h => by
    cases h with
    | list parts => exact .list (within_mapStringsItems f items parts)
  | .map entries, h => by
    cases h with
    | map parts => exact .map (within_mapStringsEntries f entries parts)
termination_by structural value => value

theorem within_mapStringsItems {levels : Nat} (f : String → Option String) :
    (items : List Value) → (∀ v ∈ items, v.Within P levels) →
      ∀ v ∈ Id.run (mapStringsItemsM (fun s => pure (f s)) items), v.Within P levels
  | [], h => h
  | v :: rest, h =>
    List.forall_mem_cons.mpr ⟨v.within_mapStrings f (List.forall_mem_cons.mp h).1,
      within_mapStringsItems f rest (List.forall_mem_cons.mp h).2⟩
termination_by structural items => items

theorem within_mapStringsEntries {levels : Nat} (f : String → Option String) :
    (entries : List (String × Value)) → Entries.Within P levels entries →
      Entries.Within P levels (Id.run (mapStringsEntriesM (fun s => pure (f s)) entries))
  | [], h => h
  | (_, v) :: rest, h =>
    List.forall_mem_cons.mpr ⟨v.within_mapStrings f (List.forall_mem_cons.mp h).1,
      within_mapStringsEntries f rest (List.forall_mem_cons.mp h).2⟩
termination_by structural entries => entries

end

end

namespace Label

def Within (P : Number → Prop) (levels : Nat) (label : Label) : Prop :=
  label.toValue.Within P levels

variable {P : Number → Prop} {levels : Nat} {label patch : Label}

theorem within_iff : label.Within P (levels + 1) ↔ Entries.Within P levels label.entries := by
  constructor
  · intro within
    cases within with
    | map parts => exact parts
  · exact fun parts => .map parts

theorem within_empty : (∅ : Label).Within P (levels + 1) :=
  within_iff.mpr fun _ absent => nomatch absent

theorem within_insert (within : label.Within P (levels + 1)) {v : Value} (value : v.Within P levels)
    (key : String) : (label.insert key v).Within P (levels + 1) :=
  within_iff.mpr (Entries.within_insert (within_iff.mp within) (v.within_sorted value) key)

theorem within_ofList {entries : List (String × Value)} (within : Entries.Within P levels entries) :
    (ofList entries).Within P (levels + 1) :=
  Value.within_sorted _ (.map within)

theorem within_merge (within : label.Within P levels) (patched : patch.Within P levels) :
    (label.merge patch).Within P levels := by
  cases levels with
  | zero => cases within
  | succ levels =>
    exact within_iff.mpr (within_mergeEntries (within_iff.mp within) _ (within_iff.mp patched))

theorem within_mapStrings (f : String → Option String) (within : label.Within P levels) :
    (label.mapStrings f).Within P levels := by
  rw [Within, toValue_mapStrings]
  exact label.toValue.within_mapStrings f within

end Label

end GraphGrammar
