import GraphGrammar.Label.Basic

/-!
Deep merge. A patch is written over a label key by key. A nested label of the patch is merged into the
nested label that is there, or into an empty one; any other value takes the place of what is there. All
entries stay in order.
-/

namespace GraphGrammar

/-- The entries of the label in a place, none if there is no label. -/
def Entries.under : Option Value → Entries
  | some (.map entries) => entries
  | _ => []

mutual

/-- The value of a patch, written over what is in its place. -/
def Value.mergeOver (slot : Option Value) : Value → Value
  | .map patch => .map (mergeEntries (Entries.under slot) patch)
  | value => value
termination_by structural v => v

/-- The entries of a patch, written over those of a label from the least key on. -/
def mergeEntries (base : Entries) : List (String × Value) → Entries
  | [] => base
  | (key, value) :: rest =>
    mergeEntries (Entries.insert key (value.mergeOver (Entries.find? key base)) base) rest
termination_by structural es => es

end

/-- What holds of an empty label, and of what is in a place, holds of the label there. -/
theorem Value.map_under {P : Value → Prop} {slot : Option Value} (empty : P (.map []))
    (old : ∀ v ∈ slot, P v) : P (.map (Entries.under slot)) := by
  match slot, old with
  | some (.map entries), old => exact old _ rfl
  | none, _ | some (.bool _), _ | some (.num _), _ | some (.str _), _ | some (.list _), _ => exact empty

mutual

theorem Value.ordered_mergeOver {slot : Option Value} (old : ∀ v ∈ slot, v.Ordered) :
    (value : Value) → value.Ordered → (value.mergeOver slot).Ordered
  | .bool _, _ | .num _, _ | .str _, _ => trivial
  | .list _, ordered => ordered
  | .map patch, ordered =>
    ordered_mergeEntries (Value.map_under (P := Value.Ordered) Entries.ordered_nil old) patch ordered.2
termination_by structural value => value

theorem ordered_mergeEntries {base : Entries} (ordered : base.Ordered) :
    (patch : List (String × Value)) → OrderedEntries patch → (mergeEntries base patch).Ordered
  | [], _ => ordered
  | (key, value) :: rest, patched =>
    have written : (value.mergeOver (Entries.find? key base)).Ordered :=
      value.ordered_mergeOver (fun _ found => ordered.find? found) patched.1
    ordered_mergeEntries (ordered.insert written key) rest patched.2
termination_by structural patch => patch

end

def Label.merge (label patch : Label) : Label where
  entries := mergeEntries label.entries patch.entries
  ordered := ordered_mergeEntries label.ordered patch.entries patch.ordered.2

end GraphGrammar
