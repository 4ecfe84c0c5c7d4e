import GraphGrammar.Proofs.Graph.Issue

/-!
Ledgers of ids. A counter gives out one id after the other, and an id that comes from elsewhere moves it
past this id. A ledger lists both in the order in which they come and leaves nothing out. An id that is
given out is greater than all ids before it, because the counter is past all of them.
-/

namespace GraphGrammar

/-- An id that a counter gives out, or one that comes from elsewhere. -/
structure Entry where
  issued : Bool
  index : UInt64
deriving DecidableEq

namespace Entry

/-- What an id makes of its counter. -/
def advance (counter : UInt64) (e : Entry) : UInt64 :=
  if e.issued then counter + 1 else max counter (Allocator.successor e.index)

def observed (indices : List UInt64) : List Entry := indices.map (⟨false, ·⟩)

/-- An id that is given out is greater than all ids before it. -/
def Ascending (entries : List Entry) : Prop :=
  entries.Pairwise fun earlier later => later.issued = true → earlier.index < later.index

/-- No counter gives out its greatest id, which has no successor. -/
def SpareLast (entries : List Entry) : Prop := ∀ e ∈ entries, e.issued = true → e.index ≠ lastIndex

instance (entries : List Entry) : Decidable (SpareLast entries) :=
  inferInstanceAs (Decidable (∀ e ∈ entries, _))

theorem spareLast_append {entries more : List Entry} :
    SpareLast (entries ++ more) ↔ SpareLast entries ∧ SpareLast more := List.forall_mem_append

end Entry

/-- The ids by which a counter comes from one state to another. -/
inductive Ledger : UInt64 → List Entry → UInt64 → Prop where
  | nil (n : UInt64) : Ledger n [] n
  | issue {n last : UInt64} {rest : List Entry} (room : n ≠ lastIndex)
    (later : Ledger (n + 1) rest last) : Ledger n (⟨true, n⟩ :: rest) last
  | observe {n i last : UInt64} {rest : List Entry}
    (later : Ledger (max n (Allocator.successor i)) rest last) : Ledger n (⟨false, i⟩ :: rest) last

namespace Ledger

variable {n m k : UInt64} {entries more : List Entry}

theorem le (ledger : Ledger n entries m) : n ≤ m := by
  induction ledger with
  | nil n => exact UInt64.le_refl n
  | issue room _ ih =>
    have next := Allocator.toNat_add_one room
    rw [UInt64.le_iff_toNat_le] at ih ⊢
    omega
  | observe _ ih => exact UInt64.le_trans (Allocator.le_max_left _ _) ih

theorem append (ledger : Ledger n entries m) (rest : Ledger m more k) : Ledger n (entries ++ more) k := by
  induction ledger with
  | nil => exact rest
  | issue room _ ih => exact .issue room (ih rest)
  | observe _ ih => exact .observe (ih rest)

theorem foldl_advance (ledger : Ledger n entries m) : entries.foldl Entry.advance n = m := by
  induction ledger with
  | nil => rfl
  | issue _ _ ih => exact ih
  | observe _ ih => exact ih

theorem le_of_issued (ledger : Ledger n entries m) :
    ∀ e ∈ entries, e.issued = true → n ≤ e.index ∧ e.index ≠ lastIndex := by
  induction ledger with
  | nil => simp
  | @issue n last rest room later ih =>
    refine List.forall_mem_cons.mpr ⟨fun _ => ⟨UInt64.le_refl n, room⟩, fun e member given => ?_⟩
    obtain ⟨above, other⟩ := ih e member given
    have next := Allocator.toNat_add_one room
    rw [UInt64.le_iff_toNat_le] at above ⊢
    exact ⟨by omega, other⟩
  | observe _ ih =>
    refine List.forall_mem_cons.mpr ⟨fun given => (Bool.false_ne_true given).elim, fun e member given => ?_⟩
    obtain ⟨above, other⟩ := ih e member given
    exact ⟨UInt64.le_trans (Allocator.le_max_left _ _) above, other⟩

theorem lt_of_successor_le {i j : UInt64} (past : Allocator.successor i ≤ j) (room : j ≠ lastIndex) :
    i < j := by
  by_cases last : i = lastIndex
  · subst last
    have range := j.toNat_lt
    have greatest : (Allocator.successor lastIndex).toNat = 2 ^ 64 - 1 := rfl
    have value : lastIndex.toNat = 2 ^ 64 - 1 := rfl
    rw [UInt64.le_iff_toNat_le, greatest] at past
    exact absurd (UInt64.toNat_inj.mp (by omega)) room
  · exact Allocator.lt_of_successor_le last past

theorem ascending (ledger : Ledger n entries m) : Entry.Ascending entries := by
  -- After an id the counter is past it, and whatever is given out later is not below the counter.
  induction ledger with
  | nil => exact .nil
  | @issue n last rest room later ih =>
    refine .cons (fun e member given => ?_) ih
    obtain ⟨above, other⟩ := later.le_of_issued e member given
    rw [← Allocator.successor_of_ne room] at above
    exact lt_of_successor_le above other
  | observe later ih =>
    refine .cons (fun e member given => ?_) ih
    obtain ⟨above, other⟩ := later.le_of_issued e member given
    exact lt_of_successor_le (UInt64.le_trans (Allocator.le_max_right _ _) above) other

theorem not_issued {i : UInt64} (ledger : Ledger n entries m) (counted : Allocator.successor i ≤ n) :
    ⟨true, i⟩ ∉ entries := by
  intro given
  obtain ⟨above, room⟩ := ledger.le_of_issued _ given rfl
  exact UInt64.lt_irrefl i (lt_of_successor_le (UInt64.le_trans counted above) room)

/-- Ids that the counter is past already do not move it. -/
theorem of_counted {indices : List UInt64} (counted : ∀ i ∈ indices, Allocator.successor i ≤ n) :
    Ledger n (Entry.observed indices) n := by
  induction indices with
  | nil => exact .nil n
  | cons i rest ih =>
    obtain ⟨first, others⟩ := List.forall_mem_cons.mp counted
    refine .observe ?_
    rw [Allocator.max_eq_left first]
    exact ih others

theorem of_row {α : Type} (index : α → UInt64) {ids : List α}
    (row : ids.map (fun id => (index id).toNat) = List.range' n.toNat ids.length)
    (count : m.toNat = n.toNat + ids.length) (spared : ∀ id ∈ ids, index id ≠ lastIndex) :
    Ledger n (ids.map fun id => ⟨true, index id⟩) m := by
  induction ids generalizing n with
  | nil =>
    have same : m = n := UInt64.toNat_inj.mp count
    subst same
    exact .nil m
  | cons id rest ih =>
    rw [List.map_cons, List.length_cons, List.range'_succ, List.cons.injEq] at row
    obtain ⟨first, others⟩ := row
    have same : n = index id := (UInt64.toNat_inj.mp first).symm
    subst same
    obtain ⟨room, later⟩ := List.forall_mem_cons.mp spared
    have next := Allocator.toNat_add_one room
    refine .issue room (ih ?_ ?_ later)
    · rw [next]
      exact others
    · rw [next, count, List.length_cons]
      omega

end Ledger

namespace Allocator.Issues

variable {a b : Allocator} {nodes : List NodeId} {edges : List EdgeId}

theorem nodeLedger (issues : a.Issues nodes edges b) (spared : NodeId.last ∉ nodes) :
    Ledger a.nextNode (nodes.map fun id => ⟨true, id.index⟩) b.nextNode := by
  refine .of_row NodeId.index issues.node issues.nextNode fun id listed last => ?_
  have same : id = .last := congrArg NodeId.mk last
  exact spared (same ▸ listed)

theorem edgeLedger (issues : a.Issues nodes edges b) (spared : EdgeId.last ∉ edges) :
    Ledger a.nextEdge (edges.map fun id => ⟨true, id.index⟩) b.nextEdge := by
  refine .of_row EdgeId.index issues.edge issues.nextEdge fun id listed last => ?_
  have same : id = .last := congrArg EdgeId.mk last
  exact spared (same ▸ listed)

end Allocator.Issues

end GraphGrammar
