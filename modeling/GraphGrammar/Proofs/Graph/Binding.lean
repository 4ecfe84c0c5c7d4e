import GraphGrammar.Rule.Subgraph
import Mathlib.Data.List.Forall2

/-!
Names and the nodes that they are bound to. Of several bindings of one name the last one counts, so a name stands
for a node exactly if the node is bound to it at some position and nothing is bound to it further on.
-/

namespace GraphGrammar.Bindings

theorem node?_cons (b : String × NodeId) (rest : Bindings) (name : String) :
    node? (b :: rest) name = (node? rest name).or (if name = b.1 then some b.2 else none) := by
  obtain ⟨key, id⟩ := b
  rw [node?, List.reverse_cons, List.lookup_append, List.lookup_cons]
  by_cases here : name = key
  · rw [if_pos here, here, beq_self_eq_true, node?]
  · rw [if_neg here, beq_false_of_ne here, node?]
    rfl

theorem node?_eq_none_iff {bindings : Bindings} {name : String} :
    bindings.node? name = none ↔ name ∉ bindings.map Prod.fst := by
  induction bindings with
  | nil => simp [node?]
  | cons b rest ih => simp [node?_cons, ih, and_comm]

theorem node?_eq_some_iff {bindings : Bindings} {name : String} {id : NodeId} :
    bindings.node? name = some id ↔ ∃ i, bindings[i]? = some (name, id) ∧
      ∀ j : Nat, i < j → (bindings.map Prod.fst)[j]? ≠ some name := by
  -- An entry counts only if the name does not come again behind it.
  induction bindings with
  | nil => simp [node?]
  | cons b rest ih =>
    rw [node?_cons]
    constructor
    · intro found
      rcases Option.or_eq_some_iff.mp found with later | ⟨absent, here⟩
      · obtain ⟨i, there, last⟩ := ih.mp later
        refine ⟨i + 1, there, fun j above => ?_⟩
        obtain ⟨j, rfl⟩ := Nat.exists_eq_add_of_lt (Nat.zero_lt_of_lt above)
        simpa using last j (by omega)
      · have absent := node?_eq_none_iff.mp absent
        split at here
        · next same =>
          refine ⟨0, by simpa [same, Prod.ext_iff] using here, fun j above there => ?_⟩
          obtain ⟨j, rfl⟩ := Nat.exists_eq_add_of_lt above
          exact absent (List.mem_of_getElem? (by simpa using there))
        · cases here
    · rintro ⟨i, there, last⟩
      cases i with
      | zero =>
        have absent : node? rest name = none := by
          refine node?_eq_none_iff.mpr fun member => ?_
          obtain ⟨j, again⟩ := List.mem_iff_getElem?.mp member
          exact last (j + 1) (Nat.succ_pos j) again
        have here : b = (name, id) := by simpa using there
        simp [absent, here]
      | succ i =>
        have later : node? rest name = some id :=
          ih.mpr ⟨i, there, fun j above => last (j + 1) (Nat.succ_lt_succ above)⟩
        simp [later]

/-- Of names that are all different the first one counts as well as the last one. -/
theorem node?_eq_lookup {bindings : Bindings} (distinct : (bindings.map Prod.fst).Nodup) (name : String) :
    bindings.node? name = List.lookup name bindings := by
  induction bindings with
  | nil => rfl
  | cons b rest ih =>
    obtain ⟨fresh, tail⟩ := List.nodup_cons.mp distinct
    rw [node?_cons, List.lookup_cons, ih tail]
    by_cases here : name = b.1
    · have absent : List.lookup name rest = none := by
        rw [← ih tail, node?_eq_none_iff, here]
        exact fresh
      simp only [absent, Option.none_or, if_pos here, beq_iff_eq.mpr here]
    · simp only [if_neg here, beq_false_of_ne here, Option.or_none]

end GraphGrammar.Bindings
