import GraphGrammar.Number.Basic

/-!
Values: truth values, numbers, texts, lists of values and nested labels. Entries of a label are in order if
their keys ascend, each key once, and the same holds of all labels inside them. Whatever entries a value is
given with, `Value.sorted` puts them in order.
-/

namespace GraphGrammar

inductive Value where
  | bool (b : Bool)
  | num (x : Number)
  | str (s : String)
  | list (items : List Value)
  | map (entries : List (String × Value))
deriving Inhabited

abbrev Entries := List (String × Value)

namespace Value

def asString? : Value → Option String
  | str s => some s
  | _ => none

def asNumber? : Value → Option Number
  | num x => some x
  | _ => none

def asBool? : Value → Option Bool
  | bool b => some b
  | _ => none

end Value

namespace Entries

def find? (key : String) : Entries → Option Value
  | [] => none
  | (k, v) :: rest => if k = key then some v else find? key rest

/-- Puts a value at a key, in front of the first greater one. -/
def insert (key : String) (value : Value) : Entries → Entries
  | [] => [(key, value)]
  | (k, v) :: rest =>
    if k = key then (key, value) :: rest
    else if key < k then (key, value) :: (k, v) :: rest
    else (k, v) :: insert key value rest

def erase (key : String) : Entries → Entries
  | [] => []
  | (k, v) :: rest => if k = key then rest else (k, v) :: erase key rest

def keys (entries : Entries) : List String := entries.map Prod.fst

end Entries

mutual

/-- Every label inside the value has ascending keys. -/
def Value.Ordered : Value → Prop
  | .bool _ | .num _ | .str _ => True
  | .list items => OrderedItems items
  | .map entries => (Entries.keys entries).Pairwise (· < ·) ∧ OrderedEntries entries
termination_by structural v => v

def OrderedItems : List Value → Prop
  | [] => True
  | v :: rest => v.Ordered ∧ OrderedItems rest
termination_by structural vs => vs

def OrderedEntries : List (String × Value) → Prop
  | [] => True
  | (_, v) :: rest => v.Ordered ∧ OrderedEntries rest
termination_by structural es => es

end

/-- The keys ascend, here and in every label inside. -/
def Entries.Ordered (entries : Entries) : Prop := (Value.map entries).Ordered

theorem orderedItems_iff {items : List Value} : OrderedItems items ↔ ∀ v ∈ items, v.Ordered := by
  induction items with
  | nil => exact ⟨fun _ _ absent => (nomatch absent), fun _ => trivial⟩
  | cons v rest ih => rw [OrderedItems, ih, List.forall_mem_cons]

namespace Entries

theorem mem_keys_iff {key : String} {entries : Entries} :
    key ∈ keys entries ↔ (find? key entries).isSome := by
  induction entries with
  | nil => simp [keys, find?]
  | cons e rest ih =>
    obtain ⟨k, v⟩ := e
    have step : key ∈ keys ((k, v) :: rest) ↔ key = k ∨ key ∈ keys rest := List.mem_cons
    rw [step, ih, find?]
    by_cases h : k = key
    · simp [h]
    · simp [h, Ne.symm h]

theorem find?_eq_none {key : String} {entries : Entries} (absent : key ∉ keys entries) :
    find? key entries = none := by
  rw [mem_keys_iff] at absent
  simpa using absent

theorem find?_insert (key k : String) (v : Value) (entries : Entries) :
    find? k (insert key v entries) = if key = k then some v else find? k entries := by
  induction entries with
  | nil => rfl
  | cons e rest ih =>
    obtain ⟨j, w⟩ := e
    by_cases hit : j = key
    · subst hit
      simp only [insert, if_true, find?]
      split <;> rfl
    · by_cases before : key < j
      · simp only [insert, if_neg hit, if_pos before, find?]
      · simp only [insert, if_neg hit, if_neg before, find?, ih]
        by_cases h : j = k
        · subst h
          simp [Ne.symm hit]
        · simp [h]

theorem mem_keys_insert {key k : String} {v : Value} {entries : Entries} :
    k ∈ keys (insert key v entries) ↔ k = key ∨ k ∈ keys entries := by
  rw [mem_keys_iff, mem_keys_iff, find?_insert]
  by_cases h : key = k
  · simp [h]
  · simp [h, Ne.symm h]

theorem pairwise_keys_insert {entries : Entries} (ordered : (keys entries).Pairwise (· < ·))
    (key : String) (v : Value) : (keys (insert key v entries)).Pairwise (· < ·) := by
  induction entries with
  | nil => exact List.pairwise_singleton _ _
  | cons e rest ih =>
    obtain ⟨j, w⟩ := e
    obtain ⟨first, tail⟩ := List.pairwise_cons.mp ordered
    by_cases hit : j = key
    · subst hit
      simpa only [insert, if_true, keys, List.map_cons] using ordered
    · by_cases before : key < j
      · simp only [insert, if_neg hit, if_pos before]
        refine List.pairwise_cons.mpr ⟨fun k hk => ?_, ordered⟩
        rcases List.mem_cons.mp hk with rfl | hk
        · exact before
        · exact String.lt_trans before (first k hk)
      · simp only [insert, if_neg hit, if_neg before]
        refine List.pairwise_cons.mpr ⟨fun k hk => ?_, ih tail⟩
        rcases mem_keys_insert.mp hk with rfl | hk
        · exact Std.lt_of_le_of_ne (String.not_lt.mp before) hit
        · exact first k hk

theorem insert_of_greatest {entries : Entries} {key : String}
    (greatest : ∀ k ∈ keys entries, k < key) (v : Value) :
    insert key v entries = entries ++ [(key, v)] := by
  induction entries with
  | nil => rfl
  | cons e rest ih =>
    obtain ⟨k, w⟩ := e
    obtain ⟨first, tail⟩ := List.forall_mem_cons.mp greatest
    have other : k ≠ key := String.ne_of_lt first
    have before : ¬key < k := String.lt_asymm first
    rw [insert, if_neg other, if_neg before, ih tail]
    rfl

theorem keys_erase_sublist (key : String) (entries : Entries) :
    (keys (erase key entries)).Sublist (keys entries) := by
  induction entries with
  | nil => exact .slnil
  | cons e rest ih =>
    obtain ⟨j, w⟩ := e
    by_cases hit : j = key
    · simp only [erase, if_pos hit]
      exact .cons _ (.refl _)
    · simp only [erase, if_neg hit]
      exact .cons_cons _ ih

/-- Reading after erasing, where no key stands twice. -/
theorem find?_erase {entries : Entries} (distinct : (keys entries).Nodup) (key k : String) :
    find? k (erase key entries) = if key = k then none else find? k entries := by
  induction entries with
  | nil => simp [erase, find?]
  | cons e rest ih =>
    obtain ⟨j, w⟩ := e
    obtain ⟨fresh, tail⟩ := List.nodup_cons.mp distinct
    by_cases hit : j = key
    · subst hit
      simp only [erase, if_true, find?]
      by_cases h : j = k
      · simp [← h, find?_eq_none fresh]
      · simp [h]
    · simp only [erase, if_neg hit, find?, ih tail]
      by_cases h : j = k
      · subst h
        simp [Ne.symm hit]
      · simp [h]

theorem ordered_nil : Ordered [] := ⟨.nil, trivial⟩

namespace Ordered

variable {entries : Entries}

theorem nodup_keys (ordered : Ordered entries) : (keys entries).Nodup :=
  ordered.1.imp fun h => String.ne_of_lt h

theorem find? {key : String} {v : Value} (ordered : Ordered entries)
    (found : find? key entries = some v) : v.Ordered := by
  replace ordered := ordered.2
  induction entries with
  | nil => cases found
  | cons e rest ih =>
    obtain ⟨j, w⟩ := e
    by_cases hit : j = key
    · simp only [Entries.find?, if_pos hit, Option.some.injEq] at found
      exact found ▸ ordered.1
    · simp only [Entries.find?, if_neg hit] at found
      exact ih found ordered.2

theorem insert (ordered : Ordered entries) {v : Value} (value : v.Ordered) (key : String) :
    Ordered (insert key v entries) := by
  refine ⟨pairwise_keys_insert ordered.1 key v, ?_⟩
  replace ordered := ordered.2
  induction entries with
  | nil => exact ⟨value, trivial⟩
  | cons e rest ih =>
    obtain ⟨j, w⟩ := e
    by_cases hit : j = key
    · simpa only [Entries.insert, if_pos hit] using ⟨value, ordered.2⟩
    · by_cases before : key < j
      · simpa only [Entries.insert, if_neg hit, if_pos before] using ⟨value, ordered⟩
      · simpa only [Entries.insert, if_neg hit, if_neg before] using ⟨ordered.1, ih ordered.2⟩

theorem erase (ordered : Ordered entries) (key : String) : Ordered (erase key entries) := by
  refine ⟨ordered.1.sublist (keys_erase_sublist key entries), ?_⟩
  replace ordered := ordered.2
  induction entries with
  | nil => exact ordered
  | cons e rest ih =>
    obtain ⟨j, w⟩ := e
    by_cases hit : j = key
    · simpa only [Entries.erase, if_pos hit] using ordered.2
    · simpa only [Entries.erase, if_neg hit] using ⟨ordered.1, ih ordered.2⟩

end Ordered

end Entries

mutual

/-- The value with the entries of every label in order. Of two entries with one key the later one stays. -/
def Value.sorted : Value → Value
  | .bool b => .bool b
  | .num x => .num x
  | .str s => .str s
  | .list items => .list (sortedItems items)
  | .map entries => .map (insertEntries [] entries)
termination_by structural v => v

def sortedItems : List Value → List Value
  | [] => []
  | v :: rest => v.sorted :: sortedItems rest
termination_by structural vs => vs

/-- Puts entries one by one into others that are in order. -/
def insertEntries (base : Entries) : List (String × Value) → Entries
  | [] => base
  | (key, v) :: rest => insertEntries (Entries.insert key v.sorted base) rest
termination_by structural es => es

end

mutual

theorem Value.ordered_sorted : (v : Value) → v.sorted.Ordered
  | .bool _ | .num _ | .str _ => trivial
  | .list items => ordered_sortedItems items
  | .map entries => ordered_insertEntries Entries.ordered_nil entries
termination_by structural v => v

theorem ordered_sortedItems : (items : List Value) → OrderedItems (sortedItems items)
  | [] => trivial
  | v :: rest => ⟨v.ordered_sorted, ordered_sortedItems rest⟩
termination_by structural items => items

theorem ordered_insertEntries {base : Entries} (ordered : base.Ordered) :
    (entries : List (String × Value)) → (insertEntries base entries).Ordered
  | [] => ordered
  | (key, v) :: rest => ordered_insertEntries (ordered.insert v.ordered_sorted key) rest
termination_by structural entries => entries

end

mutual

theorem Value.sorted_of_ordered : (v : Value) → v.Ordered → v.sorted = v
  | .bool _, _ | .num _, _ | .str _, _ => rfl
  | .list items, ordered => congrArg Value.list (sortedItems_of_ordered items ordered)
  | .map entries, ordered => congrArg Value.map (insertEntries_of_ordered entries ordered.1 ordered.2)
termination_by structural v => v

theorem sortedItems_of_ordered : (items : List Value) → OrderedItems items → sortedItems items = items
  | [], _ => rfl
  | v :: rest, ordered => by
    rw [sortedItems, v.sorted_of_ordered ordered.1, sortedItems_of_ordered rest ordered.2]
termination_by structural items => items

theorem insertEntries_of_ordered {base : Entries} : (entries : List (String × Value)) →
    (Entries.keys (base ++ entries)).Pairwise (· < ·) → OrderedEntries entries →
      insertEntries base entries = base ++ entries
  | [], _, _ => (List.append_nil base).symm
  | (key, v) :: rest, ascending, ordered => by
    have greatest : ∀ k ∈ Entries.keys base, k < key := by
      intro k member
      rw [Entries.keys, List.map_append] at ascending
      exact (List.pairwise_append.mp ascending).2.2 k member key List.mem_cons_self
    rw [List.append_cons] at ascending
    rw [insertEntries, v.sorted_of_ordered ordered.1, Entries.insert_of_greatest greatest,
      insertEntries_of_ordered rest ascending ordered.2, ← List.append_cons]
termination_by structural entries => entries

end

end GraphGrammar
