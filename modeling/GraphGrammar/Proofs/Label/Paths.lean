import GraphGrammar.Proofs.Label.Place

/-!
Merging by paths. What stands at the end of a path of keys after a merge is what the patch has there, or what
the label has there if the patch leaves the path at a key that it does not have.
-/

namespace GraphGrammar

namespace Value

variable {v : Value} {slot : Option Value} {path : List String}

/-- The value at the end of a path of keys through nested labels. -/
def atKeys? (v : Value) (path : List String) : Option Value := v.at? (path.map .key)

/-- Whether a value that is no label stands on the path, before its end. -/
def Blocks (v : Value) (path : List String) : Prop :=
  ∃ front rest, front ++ rest = path ∧ rest ≠ [] ∧ ∃ u, v.atKeys? front = some u ∧ u.asLabel? = none

theorem atKeys?_cons (v : Value) (key : String) (path : List String) :
    v.atKeys? (key :: path) = (v.part? (.key key)).bind fun u => u.atKeys? path := rfl

theorem leaf_or_map (v : Value) : v.asLabel? = none ∨ ∃ entries, v = .map entries := by
  cases v with
  | map entries => exact .inr ⟨entries, rfl⟩
  | _ => exact .inl rfl

theorem part?_key_of_leaf (leaf : v.asLabel? = none) (key : String) : v.part? (.key key) = none := by
  cases v with
  | map => cases leaf
  | _ => rfl

theorem blocks_cons_iff {key : String} : v.Blocks (key :: path) ↔
    v.asLabel? = none ∨ ∃ u, v.part? (.key key) = some u ∧ u.Blocks path := by
  constructor
  · rintro ⟨front, rest, whole, more, u, there, leaf⟩
    cases front with
    | nil =>
      cases there
      exact .inl leaf
    | cons k front =>
      obtain ⟨rfl, tail⟩ := List.cons.inj whole
      obtain ⟨part, here, below⟩ := at?_cons_eq_some.mp there
      exact .inr ⟨part, here, front, rest, tail, more, u, below, leaf⟩
  · rintro (leaf | ⟨part, here, front, rest, tail, more, u, below, leaf⟩)
    · exact ⟨[], key :: path, rfl, List.cons_ne_nil _ _, v, rfl, leaf⟩
    · exact ⟨key :: front, rest, congrArg (key :: ·) tail, more, u,
        at?_cons_eq_some.mpr ⟨part, here, below⟩, leaf⟩

theorem not_blocks_nil (v : Value) : ¬v.Blocks [] := by
  rintro ⟨front, rest, whole, more, _⟩
  exact more (List.append_eq_nil_iff.mp whole).2

instance decidableBlocks : (path : List String) → (v : Value) → Decidable (v.Blocks path)
  | [], v => isFalse v.not_blocks_nil
  | key :: path, v =>
    have : DecidablePred fun u : Value => u.Blocks path := decidableBlocks path
    decidable_of_iff (v.asLabel?.isNone = true ∨ ∃ u ∈ v.part? (.key key), u.Blocks path) <| by
      rw [blocks_cons_iff, Option.isNone_iff_eq_none]
      rfl

theorem find?_under (slot : Option Value) (key : String) :
    Entries.find? key (Entries.under slot) = slot.bind fun u => u.part? (.key key) := by
  match slot with
  | none | some (.bool _) | some (.num _) | some (.str _) | some (.list _) | some (.map _) => rfl

theorem part?_mergeOver {patch : Entries} (ordered : (Value.map patch).Ordered) (slot : Option Value)
    (key : String) : ((Value.map patch).mergeOver slot).part? (.key key) =
      ((Entries.find? key patch).map fun w => w.mergeOver (slot.bind fun u => u.part? (.key key))).or
        (slot.bind fun u => u.part? (.key key)) := by
  rw [← find?_under]
  exact Entries.find?_mergeEntries (Entries.Ordered.nodup_keys ordered) (Entries.under slot) key

theorem atKeys?_mergeOver_of_map {inner : Entries} (ordered : v.Ordered)
    (there : v.atKeys? path = some (.map inner)) (slot : Option Value) :
    ∃ merged, (v.mergeOver slot).atKeys? path = some (.map merged) := by
  induction path generalizing v slot with
  | nil =>
    cases there
    exact ⟨_, rfl⟩
  | cons key path ih =>
    obtain ⟨part, here, below⟩ := at?_cons_eq_some.mp there
    rcases v.leaf_or_map with leaf | ⟨patch, rfl⟩
    · rw [part?_key_of_leaf leaf] at here
      cases here
    · change Entries.find? key patch = some part at here
      rw [atKeys?_cons, part?_mergeOver ordered, here]
      exact ih (Entries.Ordered.find? ordered here) below _

theorem atKeys?_mergeOver_of_blocks (ordered : v.Ordered) (blocks : v.Blocks path) (slot : Option Value) :
    (v.mergeOver slot).atKeys? path = none := by
  induction path generalizing v slot with
  | nil => exact absurd blocks v.not_blocks_nil
  | cons key path ih =>
    rcases v.leaf_or_map with leaf | ⟨patch, rfl⟩
    · rw [mergeOver_leaf leaf, atKeys?_cons, part?_key_of_leaf leaf, Option.bind_none]
    · rcases blocks_cons_iff.mp blocks with leaf | ⟨part, here, blocks⟩
      · cases leaf
      · change Entries.find? key patch = some part at here
        rw [atKeys?_cons, part?_mergeOver ordered, here]
        exact ih (Entries.Ordered.find? ordered here) blocks _

theorem atKeys?_mergeOver_of_none (ordered : v.Ordered) (absent : v.atKeys? path = none)
    (free : ¬v.Blocks path) (slot : Option Value) :
    (v.mergeOver slot).atKeys? path = slot.bind fun u => u.atKeys? path := by
  induction path generalizing v slot with
  | nil => cases absent
  | cons key path ih =>
    rcases v.leaf_or_map with leaf | ⟨patch, rfl⟩
    · exact absurd (blocks_cons_iff.mpr (.inl leaf)) free
    · have old : (slot.bind fun u => u.atKeys? (key :: path)) =
          (slot.bind fun u => u.part? (.key key)).bind fun u => u.atKeys? path := by
        rw [Option.bind_assoc]
        rfl
      rw [atKeys?_cons, part?_mergeOver ordered, old]
      cases here : Entries.find? key patch with
      | none => rfl
      | some part =>
        have found : (Value.map patch).part? (.key key) = some part := here
        rw [atKeys?_cons, found] at absent
        exact ih (Entries.Ordered.find? ordered here) absent
          (fun blocks => free (blocks_cons_iff.mpr (.inr ⟨part, found, blocks⟩))) _

end Value

namespace Label

def atKeys? (label : Label) (path : List String) : Option Value := label.toValue.atKeys? path

def Blocks (label : Label) (path : List String) : Prop := label.toValue.Blocks path

instance (label : Label) (path : List String) : Decidable (label.Blocks path) :=
  Value.decidableBlocks path label.toValue

/-- What a merge leaves at the end of a path. A value of the patch that is no label stands there, and nothing
stands below such a value. Where the patch has a label there is one. In every other case the patch leaves the
path at a key that it does not have, and what the label had stays. Nothing stands there that is in neither. -/
theorem merge_at_path (patch label : Label) (path : List String) :
    (∀ v, v.asLabel? = none → patch.atKeys? path = some v →
      (label.merge patch).atKeys? path = some v) ∧
    (patch.Blocks path → (label.merge patch).atKeys? path = none) ∧
    (∀ inner, patch.atKeys? path = some (.map inner) →
      ∃ merged, (label.merge patch).atKeys? path = some (.map merged)) ∧
    (patch.atKeys? path = none → ¬patch.Blocks path →
      (label.merge patch).atKeys? path = label.atKeys? path) ∧
    ∀ v, (label.merge patch).atKeys? path = some v →
      patch.atKeys? path = some v ∨ label.atKeys? path = some v ∨
        (∃ merged, v = .map merged) ∧ ∃ inner, patch.atKeys? path = some (.map inner) := by
  have leaf (v : Value) (leaf : v.asLabel? = none) (there : patch.atKeys? path = some v) :
      (label.merge patch).atKeys? path = some v :=
    Value.at?_mergeOver leaf patch.ordered there (some label.toValue)
  have map (inner : Entries) (there : patch.atKeys? path = some (.map inner)) :
      ∃ merged, (label.merge patch).atKeys? path = some (.map merged) :=
    Value.atKeys?_mergeOver_of_map patch.ordered there (some label.toValue)
  have blocked (blocks : patch.Blocks path) : (label.merge patch).atKeys? path = none :=
    Value.atKeys?_mergeOver_of_blocks patch.ordered blocks (some label.toValue)
  have kept (absent : patch.atKeys? path = none) (free : ¬patch.Blocks path) :
      (label.merge patch).atKeys? path = label.atKeys? path :=
    Value.atKeys?_mergeOver_of_none patch.ordered absent free (some label.toValue)
  refine ⟨leaf, blocked, map, kept, fun v found => ?_⟩
  cases there : patch.atKeys? path with
  | none =>
    have free : ¬patch.Blocks path := fun blocks => nomatch (blocked blocks).symm.trans found
    exact .inr (.inl ((kept there free).symm.trans found))
  | some u =>
    rcases u.leaf_or_map with leaf' | ⟨inner, rfl⟩
    · exact .inl ((leaf u leaf' there).symm.trans found)
    · obtain ⟨merged, there'⟩ := map inner there
      exact .inr (.inr ⟨⟨merged, Option.some.inj (found.symm.trans there')⟩, inner, rfl⟩)

/-- A patch that writes beside a value, puts a list in place of a label, and a label in place of a text. -/
theorem merge_at_path_of_chest :
    let chest : Label := .ofList [("gold", .bool false), ("kind", .str "oak")]
    let label : Label := .ofList [("chest", chest.toValue), ("door", chest.toValue), ("note", .str "old")]
    let patch : Label := .ofList [("chest", .map [("gold", .bool true)]), ("door", .list []),
      ("note", .map [("text", .str "new")])]
    (patch.Blocks ["door", "kind"] ∧ patch.atKeys? ["chest", "kind"] = none ∧
      ¬patch.Blocks ["chest", "kind"]) ∧
    (label.merge patch).atKeys? ["chest", "gold"] = some (.bool true) ∧
      (label.merge patch).atKeys? ["chest", "kind"] = some (.str "oak") ∧
      (label.merge patch).atKeys? ["door", "kind"] = none ∧
      ∃ merged, (label.merge patch).atKeys? ["note"] = some (.map merged) := by
  intro chest label patch
  have blocked : patch.Blocks ["door", "kind"] := by decide
  have free : ¬patch.Blocks ["chest", "kind"] := by decide
  have absent : patch.atKeys? ["chest", "kind"] = none := by cbv
  have kept : label.atKeys? ["chest", "kind"] = some (.str "oak") := by cbv
  have merged := merge_at_path patch label
  refine ⟨⟨blocked, absent, free⟩, ?_, ?_, ?_, ?_⟩
  · exact (merged _).1 (.bool true) rfl (by cbv)
  · exact ((merged _).2.2.2.1 absent free).trans kept
  · exact (merged _).2.1 blocked
  · exact (merged _).2.2.1 [("text", .str "new")] (by cbv)

end Label

end GraphGrammar
