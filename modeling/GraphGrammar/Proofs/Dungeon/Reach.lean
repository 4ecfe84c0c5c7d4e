import GraphGrammar.Proofs.Dungeon.Rules

/-!
Walks through a dungeon. A walk starts at the entrance and passes edges from their source to their
destination. A locked edge lets through who was in the room that its prerequisite names.
-/

namespace GraphGrammar.Dungeon

def isLocked (edge : Edge) : Bool := edge.label.string? "state" == some "locked"

def keyRoom? (edge : Edge) : Option NodeId :=
  (edge.prereq.bind fun prereq => prereq.string? "node_id").bind NodeId.parse?

/-- The rooms that a walk comes to: the least set with the entrance that no edge leads out of, unless
the edge is locked and the room with its key is not in the set. -/
inductive Reached (g : Graph) : NodeId → Prop where
  | entrance : Reached g entrance
  | unlocked {id : EdgeId} {edge : Edge} (found : g.edge? id = some edge)
    (free : isLocked edge = false) (src : Reached g edge.src) : Reached g edge.dest
  | locked {id : EdgeId} {edge : Edge} {key : NodeId} (found : g.edge? id = some edge)
    (lock : isLocked edge = true) (named : keyRoom? edge = some key) (src : Reached g edge.src)
    (held : Reached g key) : Reached g edge.dest

def Passes (R : NodeId → Prop) (edge : Edge) : Prop :=
  R edge.src → (isLocked edge = true → ∃ key, keyRoom? edge = some key ∧ R key) → R edge.dest

variable {g h : Graph} {n : NodeId}

theorem reached_passes {id : EdgeId} {edge : Edge} (found : g.edge? id = some edge) :
    Passes (Reached g) edge := by
  intro src key
  cases lock : isLocked edge with
  | false => exact .unlocked found lock src
  | true =>
    obtain ⟨k, named, held⟩ := key lock
    exact .locked found lock named src held

theorem Reached.least {R : NodeId → Prop} (start : R Dungeon.entrance)
    (closed : ∀ {id edge}, g.edge? id = some edge → Passes R edge) (reached : Reached g n) : R n := by
  induction reached with
  | entrance => exact start
  | unlocked found free _ src =>
    refine closed found src fun lock => ?_
    rw [free] at lock
    cases lock
  | locked found _ named _ _ src held => exact closed found src fun _ => ⟨_, named, held⟩

theorem Reached.of_passes (closed : ∀ {id edge}, g.edge? id = some edge → Passes (Reached h) edge)
    (reached : Reached g n) : Reached h n :=
  reached.least .entrance closed

/-- A key that can be reached is reached without the door that it opens. -/
theorem Reached.without_door {id : EdgeId} {door : Edge} {key : NodeId}
    (found : g.edge? id = some door) (lock : isLocked door = true)
    (named : keyRoom? door = some key) (reached : Reached g key) : Reached (g.eraseEdge id) key := by
  -- A walk that passes the door was at the key before, so the first part of it leads there as well.
  refine Classical.byContradiction fun missing => ?_
  refine missing (reached.of_passes fun {k edge} there src held => ?_)
  by_cases same : id = k
  · subst same
    rw [found] at there
    cases there
    obtain ⟨key', named', inside⟩ := held lock
    rw [named] at named'
    cases named'
    exact absurd inside missing
  · have stays : (g.eraseEdge id).edge? k = some edge := by
      rw [Graph.edge?_eraseEdge, if_neg same, there]
    exact reached_passes stays src held

theorem isLocked_eq_false {edge : Edge} (absent : edge.label.contains "state" = false) :
    isLocked edge = false := by
  rw [isLocked, Label.string?_eq_none absent]
  rfl

theorem isLocked_bound {spec : EdgeSpec} (absent : spec.label.contains "state" = false)
    (bindings : Bindings) (id : EdgeId) (src dest : NodeId) :
    isLocked (spec.bound bindings id src dest) = false :=
  isLocked_eq_false ((Label.contains_mapStrings ..).trans absent)

end GraphGrammar.Dungeon
