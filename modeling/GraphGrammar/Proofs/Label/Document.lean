import GraphGrammar.Label.Document
import GraphGrammar.Proofs.Json.Reading
import GraphGrammar.Proofs.Label.Within

/-!
Labels in documents. A label that was read holds finite numbers only and is not deeper than its tree, and
every label is read back from its tree as it is.
-/

namespace GraphGrammar

open Json (Tree Reads Numeral greatestDepth)

/-- Finite numbers, and at most the given number of lists and labels inside one another. -/
abbrev Value.Storable (levels : Nat) : Value → Prop := Value.Within (fun x => x.isFinite = true) levels

/-- The same of a label, which counts itself. -/
abbrev Label.Storable (levels : Nat) : Label → Prop := Label.Within (fun x => x.isFinite = true) levels

mutual

theorem valueOf_storable {levels : Nat} {v : Value} :
    (tree : Tree) → tree.Within Numeral.IsFinite levels → valueOf tree = .ok v → v.Storable levels
  | .bool b, _, result => by
    cases result
    exact .bool b
  | .number n, within, result => by
    cases result
    cases within with
    | number ok => exact .num ok
  | .string s, _, result => by
    cases result
    exact .str s
  | .array items, within, result => by
    obtain ⟨values, parts, result⟩ := ok_of_bind result
    cases result
    obtain ⟨_, rfl, small⟩ := within.array_parts
    exact .list (valuesOf_storable items small parts)
  | .object members, within, result => by
    obtain ⟨entries, parts, result⟩ := ok_of_bind result
    cases result
    obtain ⟨_, rfl, small⟩ := within.object_parts
    exact Label.within_ofList (entriesOf_storable members small parts)
  | .null, _, result => nomatch result
  | .unreadable, _, result => nomatch result
  | .damaged .., _, result => nomatch result
termination_by structural tree => tree

theorem valuesOf_storable {levels : Nat} {values : List Value} :
    (items : List Tree) → (∀ t ∈ items, t.Within Numeral.IsFinite levels) →
      valuesOf items = .ok values → ∀ v ∈ values, v.Storable levels
  | [], _, result => by
    cases result
    exact fun _ absent => nomatch absent
  | t :: rest, within, result => by
    obtain ⟨first, tail⟩ := List.forall_mem_cons.mp within
    obtain ⟨v, head, result⟩ := ok_of_bind result
    obtain ⟨vs, more, result⟩ := ok_of_bind result
    cases result
    exact List.forall_mem_cons.mpr ⟨valueOf_storable t first head, valuesOf_storable rest tail more⟩
termination_by structural items => items

theorem entriesOf_storable {levels : Nat} {entries : List (String × Value)} :
    (members : List (String × Tree)) → (∀ m ∈ members, m.2.Within Numeral.IsFinite levels) →
      entriesOf members = .ok entries → ∀ e ∈ entries, e.2.Storable levels
  | [], _, result => by
    cases result
    exact fun _ absent => nomatch absent
  | (key, t) :: rest, within, result => by
    obtain ⟨first, tail⟩ := List.forall_mem_cons.mp within
    obtain ⟨v, head, result⟩ := ok_of_bind result
    obtain ⟨es, more, result⟩ := ok_of_bind result
    cases result
    exact List.forall_mem_cons.mpr ⟨valueOf_storable t first head, entriesOf_storable rest tail more⟩
termination_by structural members => members

end

theorem readEntries_storable {levels : Nat} {members : List (String × Tree)}
    {entries : List (String × Value)} (within : ∀ m ∈ members, m.2.Within Numeral.IsFinite levels)
    (result : readEntries members = .ok entries) : ∀ e ∈ entries, e.2.Storable levels := by
  induction members generalizing entries with
  | nil =>
    cases result
    exact fun _ absent => nomatch absent
  | cons m rest ih =>
    obtain ⟨first, tail⟩ := List.forall_mem_cons.mp within
    rw [readEntries, List.mapM_cons] at result
    obtain ⟨e, head, result⟩ := ok_of_bind result
    obtain ⟨es, more, result⟩ := ok_of_bind result
    obtain ⟨v, value, named⟩ := ok_of_bind head
    cases named
    cases result
    have storable : v.Storable levels := by
      unfold readValue at value
      split at value
      · exact valueOf_storable m.2 first value
      · cases value
    exact List.forall_mem_cons.mpr ⟨storable, ih tail more⟩

theorem readLabel_gives (levels : Nat) :
    Reads.Gives Numeral.IsFinite levels readLabel (Label.Storable levels) := by
  intro tree label within result
  unfold readLabel at result
  split at result
  · obtain ⟨entries, parts, result⟩ := ok_of_bind result
    cases result
    cases within with
    | object small => exact Label.within_ofList (readEntries_storable small parts)
  · obtain ⟨_, _, result⟩ := ok_of_bind result
    cases result
  · exact (Reads.not_ok_of_unexpected result).elim

/-- Labels that fit a graph document: a label stands inside three arrays and objects there. -/
abbrev Label.FitsGraph : Label → Prop := Label.Storable (greatestDepth - 3)

theorem readLabel_fitsGraph {levels : Nat} (small : levels ≤ greatestDepth - 3) :
    Reads.Gives Numeral.IsFinite levels readLabel Label.FitsGraph :=
  fun _ _ within result => (readLabel_gives levels within result).mono small

mutual

theorem Value.isReadable_toTree : (v : Value) → v.toTree.isReadable = true
  | .bool _ => rfl
  | .num _ => rfl
  | .str _ => rfl
  | .list items => areReadable_treesOfItems items
  | .map entries => haveReadable_treesOfEntries entries
termination_by structural v => v

theorem areReadable_treesOfItems : (items : List Value) → Json.areReadable (treesOfItems items) = true
  | [] => rfl
  | v :: rest => Bool.and_eq_true_iff.mpr ⟨v.isReadable_toTree, areReadable_treesOfItems rest⟩
termination_by structural items => items

theorem haveReadable_treesOfEntries :
    (entries : List (String × Value)) → Json.haveReadable (treesOfEntries entries) = true
  | [] => rfl
  | (_, v) :: rest => Bool.and_eq_true_iff.mpr ⟨v.isReadable_toTree, haveReadable_treesOfEntries rest⟩
termination_by structural entries => entries

end

theorem Label.isReadable_toTree (label : Label) : label.toTree.isReadable = true :=
  Value.isReadable_toTree label.toValue

mutual

theorem valueOf_toTree : (v : Value) → v.Ordered → valueOf v.toTree = .ok v
  | .bool _, _ => rfl
  | .num _, _ => rfl
  | .str _, _ => rfl
  | .list items, ordered => by
    rw [Value.toTree, valueOf, valuesOf_toTree items ordered]
    rfl
  | .map entries, ordered => by
    rw [Value.toTree, valueOf, entriesOf_toTree entries ordered.2]
    exact congrArg (fun label => Except.ok (Label.toValue label)) (Label.ofList_of_ordered ordered)
termination_by structural v => v

theorem valuesOf_toTree :
    (items : List Value) → OrderedItems items → valuesOf (treesOfItems items) = .ok items
  | [], _ => rfl
  | v :: rest, ordered => by
    rw [treesOfItems, valuesOf, valueOf_toTree v ordered.1, valuesOf_toTree rest ordered.2]
    rfl
termination_by structural items => items

theorem entriesOf_toTree : (entries : List (String × Value)) → OrderedEntries entries →
    entriesOf (treesOfEntries entries) = .ok entries
  | [], _ => rfl
  | (key, v) :: rest, ordered => by
    rw [treesOfEntries, entriesOf, valueOf_toTree v ordered.1, entriesOf_toTree rest ordered.2]
    rfl
termination_by structural entries => entries

end

theorem readEntries_toTree {entries : List (String × Value)} (ordered : OrderedEntries entries) :
    readEntries (treesOfEntries entries) = .ok entries := by
  induction entries with
  | nil => rfl
  | cons e rest ih =>
    have value : readValue e.2.toTree = .ok e.2 := by
      rw [readValue, if_pos e.2.isReadable_toTree, valueOf_toTree e.2 ordered.1]
    have tail := ih ordered.2
    rw [readEntries] at tail
    rw [treesOfEntries, readEntries, List.mapM_cons, tail]
    simp only [value]
    rfl

theorem readLabel_toTree (label : Label) : readLabel label.toTree = .ok label := by
  rw [Label.toTree, readLabel, readEntries_toTree label.ordered.2]
  exact congrArg Except.ok (Label.ofList_of_ordered label.ordered)

end GraphGrammar
