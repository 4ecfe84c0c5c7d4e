import GraphGrammar.Proofs.Label.Reading
import Mathlib.Logic.Basic

/-!
Texts in their places. A place inside a value is named by the keys and the positions that lead to it. A
replacement of texts leaves everything in its place, two replacements in a row are one, and the texts of a
patch are found in their places after it was merged.
-/

namespace GraphGrammar

mutual

/-- Where two replacements give each text the one that a third replacement gives, they do to a value what the
third one does. -/
theorem Value.mapStrings_mapStrings {f g both : String → Option String}
    (same : ∀ s, (g ((f s).getD s)).getD ((f s).getD s) = (both s).getD s) :
    (value : Value) → (value.mapStrings f).mapStrings g = value.mapStrings both
  | .bool _ => rfl
  | .num _ => rfl
  | .str s => congrArg Value.str (same s)
  | .list items => congrArg Value.list (mapStringsItems_mapStringsItems same items)
  | .map entries => congrArg Value.map (mapStringsEntries_mapStringsEntries same entries)
termination_by structural value => value

theorem mapStringsItems_mapStringsItems {f g both : String → Option String}
    (same : ∀ s, (g ((f s).getD s)).getD ((f s).getD s) = (both s).getD s) :
    (items : List Value) →
      Id.run (mapStringsItemsM (fun s => pure (g s))
        (Id.run (mapStringsItemsM (fun s => pure (f s)) items))) =
      Id.run (mapStringsItemsM (fun s => pure (both s)) items)
  | [] => rfl
  | v :: rest =>
    congrArg₂ List.cons (v.mapStrings_mapStrings same) (mapStringsItems_mapStringsItems same rest)
termination_by structural items => items

theorem mapStringsEntries_mapStringsEntries {f g both : String → Option String}
    (same : ∀ s, (g ((f s).getD s)).getD ((f s).getD s) = (both s).getD s) :
    (entries : List (String × Value)) →
      Id.run (mapStringsEntriesM (fun s => pure (g s))
        (Id.run (mapStringsEntriesM (fun s => pure (f s)) entries))) =
      Id.run (mapStringsEntriesM (fun s => pure (both s)) entries)
  | [] => rfl
  | (key, v) :: rest =>
    congrArg₂ List.cons (congrArg (Prod.mk key) (v.mapStrings_mapStrings same))
      (mapStringsEntries_mapStringsEntries same rest)
termination_by structural entries => entries

end

theorem Label.mapStrings_mapStrings {f g both : String → Option String}
    (same : ∀ s, (g ((f s).getD s)).getD ((f s).getD s) = (both s).getD s) (label : Label) :
    (label.mapStrings f).mapStrings g = label.mapStrings both :=
  toValue_injective (by simp only [toValue_mapStrings, Value.mapStrings_mapStrings same])

/-- What leads from a value to a part of it. -/
inductive Branch where
  | key (key : String)
  | item (position : Nat)
deriving DecidableEq

namespace Value

def part? : Value → Branch → Option Value
  | .map entries, .key key => Entries.find? key entries
  | .list items, .item position => items[position]?
  | _, _ => none

def at? (value : Value) : List Branch → Option Value
  | [] => some value
  | branch :: place => (value.part? branch).bind fun part => part.at? place

theorem at?_cons_eq_some {value found : Value} {branch : Branch} {place : List Branch} :
    value.at? (branch :: place) = some found ↔
      ∃ part, value.part? branch = some part ∧ part.at? place = some found :=
  Option.bind_eq_some_iff

theorem part?_mapStrings (f : String → Option String) (value : Value) (branch : Branch) :
    (value.mapStrings f).part? branch = (value.part? branch).map (mapStrings f) := by
  cases value with
  | bool | num | str => cases branch <;> rfl
  | list items =>
    cases branch with
    | key => rfl
    | item position =>
      change (Id.run (mapStringsItemsM (fun s => pure (f s)) items))[position]? = _
      rw [mapStringsItems_eq_map, List.getElem?_map]
      rfl
  | map entries =>
    cases branch with
    | key key =>
      change Entries.find? key (Id.run (mapStringsEntriesM (fun s => pure (f s)) entries)) = _
      rw [mapStringsEntries_eq_map]
      exact Entries.find?_map (mapStrings f) key entries
    | item => rfl

theorem at?_mapStrings (f : String → Option String) (value : Value) (place : List Branch) :
    (value.mapStrings f).at? place = (value.at? place).map (mapStrings f) := by
  induction place generalizing value with
  | nil => rfl
  | cons branch place ih =>
    rw [at?, at?, part?_mapStrings]
    cases value.part? branch with
    | none => rfl
    | some part => exact ih part

theorem at?_mergeOver {found : Value} (leaf : found.asLabel? = none) {place : List Branch} {patch : Value}
    (ordered : patch.Ordered) (there : patch.at? place = some found) (slot : Option Value) :
    (patch.mergeOver slot).at? place = some found := by
  induction place generalizing patch slot with
  | nil =>
    cases there
    exact congrArg some (mergeOver_leaf leaf slot)
  | cons branch place ih =>
    obtain ⟨part, here, below⟩ := at?_cons_eq_some.mp there
    cases patch with
    | bool | num | str => cases branch <;> cases here
    | list => exact there
    | map entries =>
      cases branch with
      | item => cases here
      | key key =>
        -- The part of the patch is written over what stands at its key.
        have distinct := Entries.Ordered.nodup_keys ordered
        have inner := Entries.Ordered.find? ordered here
        have merged (base : Entries) : (Value.map (mergeEntries base entries)).part? (.key key) =
            some (part.mergeOver (Entries.find? key base)) := by
          change Entries.find? key entries = some part at here
          rw [part?, Entries.find?_mergeEntries distinct, here]
          rfl
        rw [mergeOver]
        exact at?_cons_eq_some.mpr ⟨_, merged _, ih inner below _⟩

end Value

namespace Label

def at? (label : Label) (place : List Branch) : Option Value := label.toValue.at? place

theorem at?_mapStrings (f : String → Option String) (label : Label) (place : List Branch) :
    (label.mapStrings f).at? place = (label.at? place).map (Value.mapStrings f) := by
  rw [at?, toValue_mapStrings]
  exact label.toValue.at?_mapStrings f place

theorem at?_merge {s : String} {place : List Branch} {patch : Label}
    (there : patch.at? place = some (.str s)) (label : Label) :
    (label.merge patch).at? place = some (.str s) :=
  Value.at?_mergeOver rfl patch.ordered there (some label.toValue)

end Label

end GraphGrammar
