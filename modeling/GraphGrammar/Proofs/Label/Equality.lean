import GraphGrammar.Label.Matching
import GraphGrammar.Proofs.Label.Reading
import GraphGrammar.Proofs.Label.Within
import Mathlib.Data.List.Sort

/-!
Equality of labels. It is symmetric and transitive, and a label equals itself if no NaN stands in it.
Labels are equal if what stands at each key is.
-/

namespace GraphGrammar

namespace Number

theorem beq_iff {x y : Number} :
    (x == y) = true ↔ x.isNaN = false ∧ y.isNaN = false ∧ x.scaled = y.scaled := by
  change (!x.isNaN && !y.isNaN && x.scaled == y.scaled) = true ↔ _
  rw [Bool.and_eq_true_iff, Bool.and_eq_true_iff, Bool.not_eq_true', Bool.not_eq_true', beq_iff_eq,
    and_assoc]

instance : PartialEquivBEq Number where
  symm same := by
    obtain ⟨left, right, value⟩ := beq_iff.mp same
    exact beq_iff.mpr ⟨right, left, value.symm⟩
  trans first second := by
    obtain ⟨left, _, value⟩ := beq_iff.mp first
    obtain ⟨_, right, value'⟩ := beq_iff.mp second
    exact beq_iff.mpr ⟨left, right, value.trans value'⟩

theorem beq_self {x : Number} (number : x.isNaN = false) : (x == x) = true :=
  beq_iff.mpr ⟨number, number, rfl⟩

end Number

mutual

theorem Value.beq_symm : (v w : Value) → v.beq w = true → w.beq v = true
  | .bool _, w, same => by
    cases w with
    | bool => exact BEq.symm same
    | _ => cases same
  | .num _, w, same => by
    cases w with
    | num => exact BEq.symm same
    | _ => cases same
  | .str _, w, same => by
    cases w with
    | str => exact BEq.symm same
    | _ => cases same
  | .list vs, w, same => by
    cases w with
    | list ws => exact beqItems_symm vs ws same
    | _ => cases same
  | .map vs, w, same => by
    cases w with
    | map ws => exact beqEntries_symm vs ws same
    | _ => cases same
termination_by structural v => v

theorem beqItems_symm : (vs ws : List Value) → beqItems vs ws = true → beqItems ws vs = true
  | [], [], _ => rfl
  | v :: vs, w :: ws, same => by
    obtain ⟨first, rest⟩ := Bool.and_eq_true_iff.mp same
    exact Bool.and_eq_true_iff.mpr ⟨v.beq_symm w first, beqItems_symm vs ws rest⟩
termination_by structural vs => vs

theorem beqEntries_symm : (vs ws : List (String × Value)) → beqEntries vs ws = true →
    beqEntries ws vs = true
  | [], [], _ => rfl
  | (_, v) :: vs, (_, w) :: ws, same => by
    obtain ⟨first, rest⟩ := Bool.and_eq_true_iff.mp same
    obtain ⟨key, value⟩ := Bool.and_eq_true_iff.mp first
    exact Bool.and_eq_true_iff.mpr
      ⟨Bool.and_eq_true_iff.mpr ⟨BEq.symm key, v.beq_symm w value⟩, beqEntries_symm vs ws rest⟩
termination_by structural vs => vs

end

mutual

theorem Value.beq_trans :
    (u v w : Value) → u.beq v = true → v.beq w = true → u.beq w = true
  | .bool _, v, w, first, second => by
    cases v with
    | bool =>
      cases w with
      | bool => exact BEq.trans first second
      | _ => cases second
    | _ => cases first
  | .num _, v, w, first, second => by
    cases v with
    | num =>
      cases w with
      | num => exact BEq.trans first second
      | _ => cases second
    | _ => cases first
  | .str _, v, w, first, second => by
    cases v with
    | str =>
      cases w with
      | str => exact BEq.trans first second
      | _ => cases second
    | _ => cases first
  | .list us, v, w, first, second => by
    cases v with
    | list vs =>
      cases w with
      | list ws => exact beqItems_trans us vs ws first second
      | _ => cases second
    | _ => cases first
  | .map us, v, w, first, second => by
    cases v with
    | map vs =>
      cases w with
      | map ws => exact beqEntries_trans us vs ws first second
      | _ => cases second
    | _ => cases first
termination_by structural u => u

theorem beqItems_trans : (us vs ws : List Value) → beqItems us vs = true → beqItems vs ws = true →
    beqItems us ws = true
  | [], [], [], _, _ => rfl
  | u :: us, v :: vs, w :: ws, first, second => by
    obtain ⟨head, tail⟩ := Bool.and_eq_true_iff.mp first
    obtain ⟨head', tail'⟩ := Bool.and_eq_true_iff.mp second
    exact Bool.and_eq_true_iff.mpr ⟨u.beq_trans v w head head', beqItems_trans us vs ws tail tail'⟩
termination_by structural us => us

theorem beqEntries_trans : (us vs ws : List (String × Value)) → beqEntries us vs = true →
    beqEntries vs ws = true → beqEntries us ws = true
  | [], [], [], _, _ => rfl
  | (_, u) :: us, (_, v) :: vs, (_, w) :: ws, first, second => by
    obtain ⟨head, tail⟩ := Bool.and_eq_true_iff.mp first
    obtain ⟨head', tail'⟩ := Bool.and_eq_true_iff.mp second
    obtain ⟨key, value⟩ := Bool.and_eq_true_iff.mp head
    obtain ⟨key', value'⟩ := Bool.and_eq_true_iff.mp head'
    exact Bool.and_eq_true_iff.mpr ⟨Bool.and_eq_true_iff.mpr
      ⟨BEq.trans key key', u.beq_trans v w value value'⟩, beqEntries_trans us vs ws tail tail'⟩
termination_by structural us => us

end

instance : PartialEquivBEq Value := ⟨Value.beq_symm _ _, Value.beq_trans _ _ _⟩

instance : PartialEquivBEq Label := ⟨beqEntries_symm _ _, beqEntries_trans _ _ _⟩

mutual

theorem Value.beq_self_of_numbers :
    (v : Value) → (∀ x ∈ v.numbers, x.isNaN = false) → (v == v) = true
  | .bool b, _ => beq_self_eq_true b
  | .str s, _ => beq_self_eq_true s
  | .num _, numbers => Number.beq_self (numbers _ List.mem_cons_self)
  | .list items, numbers => beqItems_self_of_numbers items numbers
  | .map entries, numbers => beqEntries_self_of_numbers entries numbers
termination_by structural v => v

theorem beqItems_self_of_numbers : (items : List Value) →
    (∀ x ∈ numbersOfItems items, x.isNaN = false) → beqItems items items = true
  | [], _ => rfl
  | v :: rest, numbers => by
    obtain ⟨first, later⟩ := List.forall_mem_append.mp numbers
    exact Bool.and_eq_true_iff.mpr ⟨v.beq_self_of_numbers first, beqItems_self_of_numbers rest later⟩
termination_by structural items => items

theorem beqEntries_self_of_numbers : (entries : List (String × Value)) →
    (∀ x ∈ numbersOfEntries entries, x.isNaN = false) → beqEntries entries entries = true
  | [], _ => rfl
  | (key, v) :: rest, numbers => by
    obtain ⟨first, later⟩ := List.forall_mem_append.mp numbers
    exact Bool.and_eq_true_iff.mpr
      ⟨Bool.and_eq_true_iff.mpr ⟨beq_self_eq_true key, v.beq_self_of_numbers first⟩,
        beqEntries_self_of_numbers rest later⟩
termination_by structural entries => entries

end

namespace Entries

theorem mem_of_find? {key : String} {v : Value} {entries : Entries} (found : find? key entries = some v) :
    (key, v) ∈ entries := by
  induction entries with
  | nil => cases found
  | cons e rest ih =>
    rw [find?] at found
    split at found
    · next hit =>
      cases found
      rw [← hit]
      exact List.mem_cons_self
    · exact List.mem_cons_of_mem _ (ih found)

theorem find?_of_mem {entries : Entries} (distinct : (keys entries).Nodup) {e : String × Value}
    (member : e ∈ entries) : find? e.1 entries = some e.2 := by
  induction entries with
  | nil => cases member
  | cons d rest ih =>
    obtain ⟨fresh, later⟩ := List.nodup_cons.mp distinct
    rw [find?]
    rcases List.mem_cons.mp member with rfl | inside
    · exact if_pos rfl
    · have other : d.1 ≠ e.1 := fun same => fresh (same ▸ List.mem_map_of_mem inside)
      rw [if_neg other, ih later inside]

variable {as bs : Entries}

theorem keys_eq (orderedA : (keys as).Pairwise (· < ·)) (orderedB : (keys bs).Pairwise (· < ·))
    (same : ∀ key, (find? key as).isSome = (find? key bs).isSome) : keys as = keys bs := by
  refine List.Pairwise.eq_of_mem_iff orderedA orderedB fun key => ?_
  rw [mem_keys_iff, mem_keys_iff, same]

theorem find?_beq (same : beqEntries as bs = true) (key : String) :
    (find? key as == find? key bs) = true := by
  induction as generalizing bs with
  | nil =>
    cases bs with
    | nil => rfl
    | cons => cases same
  | cons d as ih =>
    cases bs with
    | nil => cases same
    | cons e bs =>
      obtain ⟨first, rest⟩ := Bool.and_eq_true_iff.mp same
      obtain ⟨keys, values⟩ := Bool.and_eq_true_iff.mp first
      rw [find?, find?, ← beq_iff_eq.mp keys]
      split
      · exact values
      · exact ih rest

theorem beqEntries_of_keys (distinct : (keys as).Nodup) (sameKeys : keys as = keys bs)
    (values : ∀ key, (find? key as == find? key bs) = true) : beqEntries as bs = true := by
  induction as generalizing bs with
  | nil =>
    cases bs with
    | nil => rfl
    | cons => cases sameKeys
  | cons d as ih =>
    cases bs with
    | nil => cases sameKeys
    | cons e bs =>
      obtain ⟨j, v⟩ := d
      obtain ⟨k, w⟩ := e
      obtain ⟨rfl, rest⟩ := List.cons.inj sameKeys
      obtain ⟨fresh, later⟩ := List.nodup_cons.mp distinct
      have here := values j
      rw [find?, find?, if_pos rfl, if_pos rfl] at here
      refine Bool.and_eq_true_iff.mpr
        ⟨Bool.and_eq_true_iff.mpr ⟨beq_self_eq_true j, here⟩, ih later rest fun key => ?_⟩
      by_cases hit : j = key
      · subst hit
        have fresh' : j ∉ keys bs := rest.subst (motive := (j ∉ ·)) fresh
        rw [find?_eq_none fresh, find?_eq_none fresh']
        rfl
      · have there := values key
        rwa [find?, find?, if_neg hit, if_neg hit] at there

theorem beqEntries_iff (orderedA : (keys as).Pairwise (· < ·))
    (orderedB : (keys bs).Pairwise (· < ·)) :
    beqEntries as bs = true ↔ ∀ key, (find? key as == find? key bs) = true := by
  refine ⟨find?_beq, fun same => ?_⟩
  have distinct : (keys as).Nodup := orderedA.imp fun h => String.ne_of_lt h
  refine beqEntries_of_keys distinct (keys_eq orderedA orderedB fun key => ?_) same
  have here := same key
  cases there : find? key as with
  | none =>
    cases there' : find? key bs with
    | none => rfl
    | some => rw [there, there'] at here; cases here
  | some =>
    cases there' : find? key bs with
    | none => rw [there, there'] at here; cases here
    | some => rfl

end Entries

/-- What holds of every value that is no label, and of a label if it holds of its values, holds of all. -/
theorem Value.entry_induction {motive : Value → Prop} (leaf : ∀ v, v.asLabel? = none → motive v)
    (map : ∀ entries : Entries, (∀ e ∈ entries, motive e.2) → motive (.map entries))
    (v : Value) : motive v := by
  cases v with
  | map entries => exact map entries fun e _ => entry_induction leaf map e.2
  | bool | num | str | list => exact leaf _ rfl
termination_by v
decreasing_by
  have inside := List.sizeOf_lt_of_mem ‹e ∈ entries›
  obtain ⟨key, v⟩ := e
  simp only [Prod.mk.sizeOf_spec, Value.map.sizeOf_spec] at inside ⊢
  omega

/-- Keys in order and no NaN. Such a value equals itself. -/
structure Value.Comparable (v : Value) : Prop where
  ordered : v.Ordered
  numbers : ∀ x ∈ v.numbers, x.isNaN = false

/-- No NaN stands in the label. Its keys are in order. -/
def Label.Comparable (label : Label) : Prop := ∀ x ∈ label.toValue.numbers, x.isNaN = false

instance (label : Label) : Decidable label.Comparable :=
  inferInstanceAs (Decidable (∀ x ∈ label.toValue.numbers, x.isNaN = false))

theorem Label.Comparable.toValue {label : Label} (ok : label.Comparable) : label.toValue.Comparable :=
  ⟨label.ordered, ok⟩

namespace Value.Comparable

theorem beq_self {v : Value} (ok : v.Comparable) : (v == v) = true := v.beq_self_of_numbers ok.numbers

theorem distinct {entries : Entries} (ok : (Value.map entries).Comparable) :
    (Entries.keys entries).Nodup :=
  Entries.Ordered.nodup_keys ok.ordered

theorem of_mem {entries : Entries} (ok : (Value.map entries).Comparable) {e : String × Value}
    (member : e ∈ entries) : e.2.Comparable where
  ordered := Entries.Ordered.find? ok.ordered (Entries.find?_of_mem ok.distinct member)
  numbers x inside := ok.numbers x (mem_numbersOfEntries.mpr ⟨e, member, inside⟩)

theorem of_find? {entries : Entries} (ok : (Value.map entries).Comparable) {key : String} {v : Value}
    (found : Entries.find? key entries = some v) : v.Comparable :=
  ok.of_mem (Entries.mem_of_find? found)

end Value.Comparable

end GraphGrammar
