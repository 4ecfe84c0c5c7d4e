import GraphGrammar.Proofs.Label.Equality

/-!
The order of matching. A label without NaN matches inside itself, what matches inside a pattern matches
wherever the pattern does, and two labels that match inside each other are equal.
-/

namespace GraphGrammar

theorem isSubsetOfEntries_iff {pattern target : Entries} : isSubsetOfEntries pattern target = true ↔
    ∀ e ∈ pattern, ∃ v, Entries.find? e.1 target = some v ∧ e.2.isSubsetOf v = true := by
  induction pattern with
  | nil => exact ⟨fun _ _ absent => absurd absent List.not_mem_nil, fun _ => rfl⟩
  | cons e rest ih =>
    rw [List.forall_mem_cons, ← ih]
    refine Bool.and_eq_true_iff.trans (and_congr_left fun _ => ?_)
    cases Entries.find? e.1 target with
    | none =>
      constructor
      · intro inside
        cases inside
      · rintro ⟨_, absent, _⟩
        cases absent
    | some v =>
      constructor
      · intro inside
        exact ⟨v, rfl, inside⟩
      · rintro ⟨_, found, inside⟩
        cases found
        exact inside

namespace Value

variable {u v w : Value}

theorem isSubsetOf_leaf (leaf : v.asLabel? = none) (w : Value) : v.isSubsetOf w = (v == w) := by
  cases v with
  | map => cases leaf
  | _ => rfl

theorem leaf_of_beq (leaf : v.asLabel? = none) (same : (v == w) = true) : w.asLabel? = none := by
  cases w with
  | map =>
    cases v with
    | map => cases leaf
    | _ => cases same
  | _ => rfl

theorem isSubsetOf_map_iff {pattern : Entries} : (Value.map pattern).isSubsetOf w = true ↔
    ∃ target, w = .map target ∧
      ∀ e ∈ pattern, ∃ v, Entries.find? e.1 target = some v ∧ e.2.isSubsetOf v = true := by
  constructor
  · intro inside
    cases w with
    | map target => exact ⟨target, rfl, isSubsetOfEntries_iff.mp inside⟩
    | _ => cases inside
  · rintro ⟨target, rfl, inside⟩
    exact isSubsetOfEntries_iff.mpr inside

theorem isSubsetOf_refl (ok : v.Comparable) : v.isSubsetOf v = true := by
  induction v using entry_induction with
  | leaf v leaf => rw [isSubsetOf_leaf leaf, ok.beq_self]
  | map entries ih =>
    exact isSubsetOf_map_iff.mpr ⟨entries, rfl, fun e member =>
      ⟨e.2, Entries.find?_of_mem ok.distinct member, ih e member (ok.of_mem member)⟩⟩

theorem isSubsetOf_trans (first : u.isSubsetOf v = true) (second : v.isSubsetOf w = true) :
    u.isSubsetOf w = true := by
  induction u using entry_induction generalizing v w with
  | leaf u leaf =>
    rw [isSubsetOf_leaf leaf] at first ⊢
    rw [isSubsetOf_leaf (leaf_of_beq leaf first)] at second
    exact BEq.trans first second
  | map entries ih =>
    obtain ⟨middle, rfl, there⟩ := isSubsetOf_map_iff.mp first
    obtain ⟨target, rfl, further⟩ := isSubsetOf_map_iff.mp second
    refine isSubsetOf_map_iff.mpr ⟨target, rfl, fun e member => ?_⟩
    obtain ⟨v, found, inside⟩ := there e member
    obtain ⟨w, found', inside'⟩ := further (e.1, v) (Entries.mem_of_find? found)
    exact ⟨w, found', ih e member inside inside'⟩

theorem isSubsetOf_of_beq (ordered : v.Ordered) (same : (v == w) = true) : v.isSubsetOf w = true := by
  induction v using entry_induction generalizing w with
  | leaf v leaf => rwa [isSubsetOf_leaf leaf]
  | map entries ih =>
    cases w with
    | map target =>
      refine isSubsetOf_map_iff.mpr ⟨target, rfl, fun e member => ?_⟩
      have found := Entries.find?_of_mem (Entries.Ordered.nodup_keys ordered) member
      have here := Entries.find?_beq same e.1
      rw [found] at here
      cases there : Entries.find? e.1 target with
      | none =>
        rw [there] at here
        cases here
      | some v =>
        rw [there, Option.some_beq_some] at here
        exact ⟨v, rfl, ih e member (Entries.Ordered.find? ordered found) here⟩
    | _ => cases same

theorem beq_of_isSubsetOf (ordered : v.Ordered) (ordered' : w.Ordered) (there : v.isSubsetOf w = true)
    (back : w.isSubsetOf v = true) : (v == w) = true := by
  induction v using entry_induction generalizing w with
  | leaf v leaf => rwa [isSubsetOf_leaf leaf] at there
  | map entries ih =>
    obtain ⟨target, rfl, forth⟩ := isSubsetOf_map_iff.mp there
    have back := isSubsetOfEntries_iff.mp back
    refine (Entries.beqEntries_iff ordered.1 ordered'.1).mpr fun key => ?_
    cases here : Entries.find? key entries with
    | none =>
      cases here' : Entries.find? key target with
      | none => rfl
      | some w =>
        obtain ⟨v, found, _⟩ := back (key, w) (Entries.mem_of_find? here')
        rw [here] at found
        cases found
    | some v =>
      obtain ⟨w, here', inside⟩ := forth (key, v) (Entries.mem_of_find? here)
      obtain ⟨v', found, inside'⟩ := back (key, w) (Entries.mem_of_find? here')
      rw [here] at found
      cases found
      rw [here', Option.some_beq_some]
      exact ih (key, v) (Entries.mem_of_find? here) (Entries.Ordered.find? ordered here)
        (Entries.Ordered.find? ordered' here') inside inside'

end Value

namespace Label

variable {a b c : Label}

theorem isSubsetOf_trans (first : a.isSubsetOf b = true) (second : b.isSubsetOf c = true) :
    a.isSubsetOf c = true :=
  Value.isSubsetOf_trans (u := a.toValue) (v := b.toValue) (w := c.toValue) first second

theorem isSubsetOf_of_beq (same : (a == b) = true) : a.isSubsetOf b = true :=
  Value.isSubsetOf_of_beq (v := a.toValue) (w := b.toValue) a.ordered same

theorem beq_of_isSubsetOf (there : a.isSubsetOf b = true) (back : b.isSubsetOf a = true) : (a == b) = true :=
  Value.beq_of_isSubsetOf (v := a.toValue) (w := b.toValue) a.ordered b.ordered there back

end Label

end GraphGrammar
