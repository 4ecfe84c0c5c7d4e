import GraphGrammar.Label.Merge
import GraphGrammar.Label.Strings

/-!
Labels by their reading. The value at a key after a merge or a replacement of texts follows from the
values at this key before. Entries in order are determined by the values at all keys.
-/

namespace GraphGrammar

namespace Entries

theorem find?_mergeEntries {patch : Entries} (distinct : (keys patch).Nodup) (base : Entries)
    (key : String) :
    find? key (mergeEntries base patch) =
      ((find? key patch).map fun value => value.mergeOver (find? key base)).or (find? key base) := by
  induction patch generalizing base with
  | nil => rfl
  | cons e rest ih =>
    obtain ⟨k, v⟩ := e
    obtain ⟨fresh, tail⟩ := List.nodup_cons.mp distinct
    rw [mergeEntries, ih tail, find?_insert, find?]
    by_cases hit : k = key
    · subst hit
      rw [find?_eq_none fresh, if_pos rfl, if_pos rfl]
      rfl
    · rw [if_neg hit, if_neg hit]

/-- Two entries in order are the same if they are read in the same way. -/
theorem eq_of_find? {a b : Entries} (orderedA : (keys a).Pairwise (· < ·))
    (orderedB : (keys b).Pairwise (· < ·)) (same : ∀ key, find? key a = find? key b) : a = b := by
  induction a generalizing b with
  | nil =>
    cases b with
    | nil => rfl
    | cons e rest =>
      have first := same e.1
      rw [find?, find?, if_pos rfl] at first
      cases first
  | cons d as ih =>
    cases b with
    | nil =>
      have first := same d.1
      rw [find?, find?, if_pos rfl] at first
      cases first
    | cons e bs =>
      obtain ⟨j, v⟩ := d
      obtain ⟨k, w⟩ := e
      obtain ⟨firstA, tailA⟩ := List.pairwise_cons.mp orderedA
      obtain ⟨firstB, tailB⟩ := List.pairwise_cons.mp orderedB
      -- Each of the first keys is in the other list, where the first key is the least one.
      have keysMatch : j = k := by
        have inB : j ∈ keys ((k, w) :: bs) := by
          rw [mem_keys_iff, ← same, find?, if_pos rfl]
          rfl
        have inA : k ∈ keys ((j, v) :: as) := by
          rw [mem_keys_iff, same, find?, if_pos rfl]
          rfl
        rcases List.mem_cons.mp inB with here | later
        · exact here
        · rcases List.mem_cons.mp inA with here | later'
          · exact here.symm
          · exact absurd (String.lt_trans (firstA k later') (firstB j later)) (String.lt_irrefl j)
      subst keysMatch
      have head := same j
      rw [find?, find?, if_pos rfl, if_pos rfl] at head
      cases head
      refine congrArg ((j, v) :: ·) (ih tailA tailB fun key => ?_)
      by_cases hit : j = key
      · subst hit
        rw [find?_eq_none fun later => String.lt_irrefl j (firstA j later),
          find?_eq_none fun later => String.lt_irrefl j (firstB j later)]
      · have rest := same key
        rwa [find?, find?, if_neg hit, if_neg hit] at rest

end Entries

theorem Value.mergeOver_leaf {v : Value} (leaf : v.asLabel? = none) (slot : Option Value) :
    v.mergeOver slot = v := by
  cases v with
  | map => cases leaf
  | _ => rfl

namespace Label

theorem eq_of_get? {a b : Label} (same : ∀ key, a.get? key = b.get? key) : a = b :=
  Label.ext (Entries.eq_of_find? a.ordered.1 b.ordered.1 same)

theorem get?_merge (label patch : Label) (key : String) :
    (label.merge patch).get? key =
      ((patch.get? key).map fun value => value.mergeOver (label.get? key)).or (label.get? key) :=
  Entries.find?_mergeEntries patch.ordered.nodup_keys label.entries key

theorem string?_eq_none {label : Label} {key : String} (absent : label.contains key = false) :
    label.string? key = none := by
  have nothing : label.get? key = none := by simpa [contains] using absent
  rw [string?, nothing]
  rfl

theorem get?_merge_single (label : Label) (key : String) (value : Value) (k : String) :
    (label.merge (.ofList [(key, value)])).get? k =
      if key = k then some (value.sorted.mergeOver (label.get? key)) else label.get? k := by
  have patch : (Label.ofList [(key, value)]).get? k = if key = k then some value.sorted else none :=
    get?_insert ∅ key k value
  rw [get?_merge, patch]
  split
  · next same => simp [same]
  · rfl

section

variable (label : Label) {key : String} (value : Value) {k : String} (other : key ≠ k)

include other

theorem string?_merge_of_ne : (label.merge (.ofList [(key, value)])).string? k = label.string? k := by
  rw [string?, get?_merge_single, if_neg other]
  rfl

theorem number?_merge_of_ne : (label.merge (.ofList [(key, value)])).number? k = label.number? k := by
  rw [number?, get?_merge_single, if_neg other]
  rfl

theorem contains_merge_of_ne :
    (label.merge (.ofList [(key, value)])).contains k = label.contains k := by
  rw [contains, get?_merge_single, if_neg other]
  rfl

end

theorem contains_merge_self (label : Label) (key : String) (value : Value) :
    (label.merge (.ofList [(key, value)])).contains key = true := by
  rw [contains, get?_merge_single, if_pos rfl]
  rfl

theorem string?_merge_self (label : Label) (key text : String) :
    (label.merge (.ofList [(key, .str text)])).string? key = some text := by
  rw [string?, get?_merge_single, if_pos rfl]
  rfl

end Label

theorem mapStringsItems_eq_map (f : String → Option String) (items : List Value) :
    Id.run (mapStringsItemsM (fun s => pure (f s)) items) = items.map (Value.mapStrings f) := by
  induction items with
  | nil => rfl
  | cons v rest ih => exact congrArg (v.mapStrings f :: ·) ih

theorem mapStringsEntries_eq_map (f : String → Option String) (entries : Entries) :
    Id.run (mapStringsEntriesM (fun s => pure (f s)) entries) =
      entries.map fun e => (e.1, e.2.mapStrings f) := by
  induction entries with
  | nil => rfl
  | cons e rest ih => exact congrArg ((e.1, e.2.mapStrings f) :: ·) ih

mutual

theorem Value.ordered_mapStrings (f : String → Option String) :
    (value : Value) → value.Ordered → (value.mapStrings f).Ordered
  | .bool _, _ | .num _, _ | .str _, _ => trivial
  | .list items, ordered => ordered_mapStringsItems f items ordered
  | .map entries, ordered => by
    have keys : Entries.keys (Id.run (mapStringsEntriesM (fun s => pure (f s)) entries)) = Entries.keys entries := by
      rw [mapStringsEntries_eq_map, Entries.keys, List.map_map]
      rfl
    exact ⟨keys.symm ▸ ordered.1, ordered_mapStringsEntries f entries ordered.2⟩
termination_by structural value => value

theorem ordered_mapStringsItems (f : String → Option String) :
    (items : List Value) → OrderedItems items →
      OrderedItems (Id.run (mapStringsItemsM (fun s => pure (f s)) items))
  | [], _ => trivial
  | v :: rest, ordered => ⟨v.ordered_mapStrings f ordered.1, ordered_mapStringsItems f rest ordered.2⟩
termination_by structural items => items

theorem ordered_mapStringsEntries (f : String → Option String) :
    (entries : List (String × Value)) → OrderedEntries entries →
      OrderedEntries (Id.run (mapStringsEntriesM (fun s => pure (f s)) entries))
  | [], _ => trivial
  | (_, v) :: rest, ordered => ⟨v.ordered_mapStrings f ordered.1, ordered_mapStringsEntries f rest ordered.2⟩
termination_by structural entries => entries

end

theorem Entries.find?_map (f : Value → Value) (key : String) (entries : Entries) :
    find? key (entries.map fun e => (e.1, f e.2)) = (find? key entries).map f := by
  induction entries with
  | nil => rfl
  | cons e rest ih =>
    rw [List.map_cons, find?, find?]
    split
    · rfl
    · exact ih

namespace Label

theorem toValue_mapStrings (f : String → Option String) (label : Label) :
    (label.mapStrings f).toValue = label.toValue.mapStrings f :=
  congrArg toValue (ofList_of_ordered (label.toValue.ordered_mapStrings f label.ordered))

theorem entries_mapStrings (f : String → Option String) (label : Label) :
    (label.mapStrings f).entries = label.entries.map fun e => (e.1, e.2.mapStrings f) :=
  (Value.map.inj (label.toValue_mapStrings f)).trans (mapStringsEntries_eq_map f label.entries)

theorem get?_mapStrings (f : String → Option String) (label : Label) (key : String) :
    (label.mapStrings f).get? key = (label.get? key).map (Value.mapStrings f) := by
  rw [get?, entries_mapStrings]
  exact Entries.find?_map (Value.mapStrings f) key label.entries

theorem string?_mapStrings (f : String → Option String) (label : Label) (key : String) :
    (label.mapStrings f).string? key = (label.string? key).map fun s => (f s).getD s := by
  rw [string?, get?_mapStrings, string?]
  cases label.get? key with
  | none => rfl
  | some value => cases value <;> rfl

theorem number?_mapStrings (f : String → Option String) (label : Label) (key : String) :
    (label.mapStrings f).number? key = label.number? key := by
  rw [number?, get?_mapStrings, number?]
  cases label.get? key with
  | none => rfl
  | some value => cases value <;> rfl

theorem contains_mapStrings (f : String → Option String) (label : Label) (key : String) :
    (label.mapStrings f).contains key = label.contains key := by
  rw [contains, get?_mapStrings, Option.isSome_map]
  rfl

end Label

end GraphGrammar
