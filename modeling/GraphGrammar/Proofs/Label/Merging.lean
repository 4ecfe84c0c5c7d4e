import GraphGrammar.Proofs.Label.Subset

/-!
Merging and matching. A patch matches inside what it was merged into, merging what matches already changes
nothing, a merge keeps the order of matching, and patches that fit into one label can be merged in any order.
-/

namespace GraphGrammar

namespace Entries

/-- A value after a merge was written there by the patch, or has been there and is not in the patch. -/
theorem find?_mergeEntries_eq_some {patch base : Entries} (distinct : (keys patch).Nodup) {key : String}
    {v : Value} (found : find? key (mergeEntries base patch) = some v) :
    (∃ w, find? key patch = some w ∧ v = w.mergeOver (find? key base)) ∨
      (find? key patch = none ∧ find? key base = some v) := by
  rw [find?_mergeEntries distinct] at found
  cases here : find? key patch with
  | none =>
    rw [here] at found
    exact .inr ⟨rfl, found⟩
  | some w =>
    rw [here] at found
    exact .inl ⟨w, rfl, (Option.some.inj found).symm⟩

end Entries

namespace Value

variable {u v w : Value} {slot other : Option Value}

theorem mergeOver_map (patch : Entries) (slot : Option Value) :
    (Value.map patch).mergeOver slot = .map (mergeEntries (Entries.under slot) patch) := rfl

theorem comparable_under (old : ∀ u ∈ slot, u.Comparable) :
    (Value.map (Entries.under slot)).Comparable :=
  map_under ⟨Entries.ordered_nil, fun _ absent => nomatch absent⟩ old

theorem Comparable.alone (ok : v.Comparable) : ∀ u ∈ some v, u.Comparable :=
  fun _ here => Option.some.inj here ▸ ok

theorem Comparable.mergeOver (ok : v.Comparable) (old : ∀ u ∈ slot, u.Comparable) :
    (v.mergeOver slot).Comparable := by
  induction v using entry_induction generalizing slot with
  | leaf v leaf => rwa [mergeOver_leaf leaf]
  | map patch ih =>
    have base := comparable_under old
    have ordered : ((Value.map patch).mergeOver slot).Ordered :=
      ordered_mergeOver (fun u there => (old u there).ordered) _ ok.ordered
    refine ⟨ordered, fun x inside => ?_⟩
    obtain ⟨e, member, inside⟩ := mem_numbersOfEntries.mp inside
    have found := Entries.find?_of_mem (Entries.Ordered.nodup_keys ordered) member
    rcases Entries.find?_mergeEntries_eq_some ok.distinct found with ⟨w, there, value⟩ | ⟨_, there⟩
    · have merged : (w.mergeOver (Entries.find? e.1 (Entries.under slot))).Comparable :=
        ih (e.1, w) (Entries.mem_of_find? there) (ok.of_find? there) fun u here => base.of_find? here
      exact (value ▸ merged).numbers x inside
    · exact (base.of_find? there).numbers x inside

theorem isSubsetOf_mergeOver (ok : v.Comparable) (slot : Option Value) :
    v.isSubsetOf (v.mergeOver slot) = true := by
  induction v using entry_induction generalizing slot with
  | leaf v leaf => rw [mergeOver_leaf leaf, isSubsetOf_refl ok]
  | map patch ih =>
    refine isSubsetOf_map_iff.mpr ⟨_, mergeOver_map patch slot, fun e member => ?_⟩
    rw [Entries.find?_mergeEntries ok.distinct, Entries.find?_of_mem ok.distinct member]
    exact ⟨_, rfl, ih e member (ok.of_mem member) _⟩

theorem mergeOver_beq (ok : v.Comparable) (old : w.Comparable) (inside : v.isSubsetOf w = true) :
    (v.mergeOver (some w) == w) = true := by
  induction v using entry_induction generalizing w with
  | leaf v leaf => rwa [mergeOver_leaf leaf, ← isSubsetOf_leaf leaf]
  | map patch ih =>
    obtain ⟨target, rfl, there⟩ := isSubsetOf_map_iff.mp inside
    have merged := ok.mergeOver old.alone
    refine (Entries.beqEntries_iff merged.ordered.1 old.ordered.1).mpr fun key => ?_
    rw [Entries.find?_mergeEntries ok.distinct]
    cases here : Entries.find? key patch with
    | none => exact Entries.find?_beq old.beq_self key
    | some u =>
      obtain ⟨u', found, inside'⟩ := there (key, u) (Entries.mem_of_find? here)
      change (some (u.mergeOver (Entries.find? key target)) == Entries.find? key target) = true
      rw [found, Option.some_beq_some]
      exact ih (key, u) (Entries.mem_of_find? here) (ok.of_find? here) (old.of_find? found) inside'

/-- Whether what stands at one place, if anything, matches inside what stands at another one. -/
def FitsIn (slot other : Option Value) : Prop := ∀ v ∈ slot, ∃ w ∈ other, v.isSubsetOf w = true

theorem FitsIn.alone (inside : v.isSubsetOf w = true) : FitsIn (some v) (some w) :=
  fun _ here => ⟨w, rfl, Option.some.inj here ▸ inside⟩

theorem FitsIn.under (fits : FitsIn slot other) (key : String) :
    FitsIn (Entries.find? key (Entries.under slot)) (Entries.find? key (Entries.under other)) := by
  match slot, fits with
  | some (.map entries), fits =>
    obtain ⟨w, there, inside⟩ := fits _ rfl
    obtain ⟨target, rfl, forth⟩ := isSubsetOf_map_iff.mp inside
    cases there
    exact fun v found => forth (key, v) (Entries.mem_of_find? found)
  | none, _ | some (.bool _), _ | some (.num _), _ | some (.str _), _ | some (.list _), _ =>
    exact fun _ absent => nomatch absent

theorem mergeOver_mono (ok : v.Comparable) (old : ∀ u ∈ slot, u.Ordered) (fits : FitsIn slot other) :
    (v.mergeOver slot).isSubsetOf (v.mergeOver other) = true := by
  induction v using entry_induction generalizing slot other with
  | leaf v leaf =>
    rw [mergeOver_leaf leaf, mergeOver_leaf leaf]
    exact isSubsetOf_refl ok
  | map patch ih =>
    have base := map_under (P := Value.Ordered) Entries.ordered_nil old
    have ordered := ordered_mergeOver old _ ok.ordered
    refine isSubsetOf_map_iff.mpr ⟨_, mergeOver_map patch other, fun e member => ?_⟩
    have found := Entries.find?_of_mem (Entries.Ordered.nodup_keys ordered) member
    rw [Entries.find?_mergeEntries ok.distinct]
    rcases Entries.find?_mergeEntries_eq_some ok.distinct found with ⟨w, here, value⟩ | ⟨here, there⟩
    · rw [here, value]
      exact ⟨_, rfl, ih (e.1, w) (Entries.mem_of_find? here) (ok.of_find? here)
        (fun u there => Entries.Ordered.find? base there) (fits.under e.1)⟩
    · rw [here]
      exact fits.under e.1 e.2 there

theorem leaf_of_isSubsetOf (inside : v.isSubsetOf w = true) (leaf : w.asLabel? = none) :
    v.asLabel? = none := by
  cases v with
  | map =>
    obtain ⟨_, rfl, _⟩ := isSubsetOf_map_iff.mp inside
    cases leaf
  | _ => rfl

/-- Values that fit into one value can be written in either order. -/
theorem mergeOver_comm (okV : v.Comparable) (okW : w.Comparable)
    (old : ∀ u ∈ slot, u.Comparable) (inV : v.isSubsetOf u = true) (inW : w.isSubsetOf u = true) :
    (w.mergeOver (some (v.mergeOver slot)) == v.mergeOver (some (w.mergeOver slot))) = true := by
  induction v using entry_induction generalizing u w slot with
  | leaf v leaf =>
    rw [isSubsetOf_leaf leaf] at inV
    have leaf' := leaf_of_isSubsetOf inW (leaf_of_beq leaf inV)
    rw [isSubsetOf_leaf leaf'] at inW
    rw [mergeOver_leaf leaf', mergeOver_leaf leaf]
    exact BEq.trans inW (BEq.symm inV)
  | map patch ih =>
    obtain ⟨target, rfl, forthV⟩ := isSubsetOf_map_iff.mp inV
    cases w with
    | map patch' =>
      have forthW := isSubsetOfEntries_iff.mp inW
      have base := comparable_under old
      have left := okW.mergeOver (okV.mergeOver old).alone
      have right := okV.mergeOver (okW.mergeOver old).alone
      -- At a key of both patches the two values fit into one value again, and may be written in either order.
      refine (Entries.beqEntries_iff left.ordered.1 right.ordered.1).mpr fun key => ?_
      change (Entries.find? key (mergeEntries (mergeEntries (Entries.under slot) patch) patch') ==
        Entries.find? key (mergeEntries (mergeEntries (Entries.under slot) patch') patch)) = true
      simp only [Entries.find?_mergeEntries okV.distinct, Entries.find?_mergeEntries okW.distinct]
      cases hereV : Entries.find? key patch with
      | none =>
        cases hereW : Entries.find? key patch' with
        | none => exact Entries.find?_beq base.beq_self key
        | some w => exact ((okW.of_find? hereW).mergeOver fun u here => base.of_find? here).beq_self
      | some v =>
        cases hereW : Entries.find? key patch' with
        | none => exact ((okV.of_find? hereV).mergeOver fun u here => base.of_find? here).beq_self
        | some w =>
          obtain ⟨b, found, inside⟩ := forthV (key, v) (Entries.mem_of_find? hereV)
          obtain ⟨b', found', inside'⟩ := forthW (key, w) (Entries.mem_of_find? hereW)
          cases found.symm.trans found'
          exact ih (key, v) (Entries.mem_of_find? hereV) (okV.of_find? hereV) (okW.of_find? hereW)
            (fun u here => base.of_find? here) inside inside'
    | _ => cases inW

end Value

namespace Label

variable {a b p q : Label}

/-- Whether two labels match inside one and the same label, so that they never disagree on a value. -/
def Compatible (p q : Label) : Prop := ∃ both : Label, p.isSubsetOf both = true ∧ q.isSubsetOf both = true

theorem Comparable.merge (ok : a.Comparable) (patched : p.Comparable) : (a.merge p).Comparable :=
  (Value.Comparable.mergeOver patched.toValue (Value.Comparable.alone ok.toValue)).numbers

theorem isSubsetOf_merge (patched : p.Comparable) (a : Label) : p.isSubsetOf (a.merge p) = true :=
  Value.isSubsetOf_mergeOver patched.toValue (some a.toValue)

theorem merge_mono (patched : p.Comparable) (inside : a.isSubsetOf b = true) :
    (a.merge p).isSubsetOf (b.merge p) = true := by
  have old : ∀ v ∈ some a.toValue, v.Ordered := by
    rintro _ ⟨⟩
    exact a.ordered
  exact Value.mergeOver_mono patched.toValue old (Value.FitsIn.alone (w := b.toValue) inside)

theorem merge_beq_iff (ok : a.Comparable) (patched : p.Comparable) :
    (a.merge p == a) = true ↔ p.isSubsetOf a = true := by
  constructor
  · intro same
    exact isSubsetOf_trans (isSubsetOf_merge patched a) (isSubsetOf_of_beq same)
  · exact Value.mergeOver_beq patched.toValue ok.toValue

theorem merge_congr (patched : p.Comparable) (same : (a == b) = true) : (a.merge p == b.merge p) = true :=
  beq_of_isSubsetOf (merge_mono patched (isSubsetOf_of_beq same))
    (merge_mono patched (isSubsetOf_of_beq (BEq.symm same)))

theorem merge_comm (ok : a.Comparable) (patchP : p.Comparable) (patchQ : q.Comparable)
    (compatible : p.Compatible q) : ((a.merge p).merge q == (a.merge q).merge p) = true := by
  obtain ⟨both, inP, inQ⟩ := compatible
  exact Value.mergeOver_comm (u := both.toValue) patchP.toValue patchQ.toValue (Value.Comparable.alone ok.toValue)
    inP inQ

variable {ps qs : List Label}

theorem foldl_merge_congr (patched : ∀ p ∈ ps, p.Comparable) (same : (a == b) = true) :
    (ps.foldl merge a == ps.foldl merge b) = true := by
  induction ps generalizing a b with
  | nil => exact same
  | cons p ps ih =>
    obtain ⟨first, later⟩ := List.forall_mem_cons.mp patched
    exact ih later (merge_congr first same)

/-- Patches that never disagree give the same label in any order. -/
theorem foldl_merge_perm (perm : ps.Perm qs) (patched : ∀ p ∈ ps, p.Comparable)
    (compatible : ∀ p ∈ ps, ∀ q ∈ ps, p.Compatible q) (ok : a.Comparable) :
    (ps.foldl merge a == qs.foldl merge a) = true := by
  induction perm generalizing a with
  | nil => exact ok.toValue.beq_self
  | cons p _ ih =>
    obtain ⟨first, later⟩ := List.forall_mem_cons.mp patched
    exact ih later (fun q inQ r inR => compatible q (.tail _ inQ) r (.tail _ inR)) (ok.merge first)
  | swap p q rest =>
    obtain ⟨patchQ, later⟩ := List.forall_mem_cons.mp patched
    obtain ⟨patchP, later⟩ := List.forall_mem_cons.mp later
    have swapped := merge_comm ok patchQ patchP (compatible q (.head _) p (.tail _ (.head _)))
    exact foldl_merge_congr later swapped
  | trans perm _ ih ih' =>
    have first := ih patched compatible ok
    have second := ih' (fun p inP => patched p (perm.mem_iff.mpr inP))
      (fun p inP q inQ => compatible p (perm.mem_iff.mpr inP) q (perm.mem_iff.mpr inQ)) ok
    exact BEq.trans first second

end Label

end GraphGrammar
