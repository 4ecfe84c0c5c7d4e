import GraphGrammar.Proofs.Dungeon.Production
import GraphGrammar.Proofs.Dungeon.Reach
import GraphGrammar.Proofs.Id.Text

/-!
How a dungeon is laid out. Side rooms and key rooms are dead ends, each at the end of one corridor. Each
lock has a key room of its own, which lies beside the door, and each key room belongs to a lock. What
takes the place of a path runs between its ends and new rooms, so that old dead ends are left alone.
-/

namespace GraphGrammar.Dungeon

open GraphGrammar.Graph (Adds)

def role? (g : Graph) (id : NodeId) : Option String :=
  (g.node? id).bind fun node => node.label.string? "role"

def IsAlcove (label : Label) : Prop :=
  label.string? "role" = some "side" ∨ label.string? "role" = some "key"

instance (label : Label) : Decidable (IsAlcove label) := inferInstanceAs (Decidable (_ ∨ _))

structure DeadEnd (g : Graph) (n : NodeId) (id : EdgeId) (corridor : Edge) : Prop where
  found : g.edge? id = some corridor
  dest : corridor.dest = n
  type : corridor.label.string? "type" = some "corridor"
  only : ∀ {k edge}, g.edge? k = some edge → edge.dest = n → k = id
  closed : ∀ {k edge}, g.edge? k = some edge → edge.src ≠ n

def Names (edge : Edge) (key : NodeId) : Prop :=
  ∃ prereq, edge.prereq = some prereq ∧ prereq.string? "node_id" = some key.text

structure OpenedBy (door : Edge) (key : NodeId) : Prop where
  locked : isLocked door = true
  names : Names door key

/-- Side rooms and key rooms are dead ends, and locks and key rooms correspond. -/
structure Layout (g : Graph) : Prop where
  deadEnd : ∀ {n node}, g.node? n = some node → IsAlcove node.label →
    ∃ id corridor, DeadEnd g n id corridor
  key : ∀ {id door}, g.edge? id = some door → isLocked door = true →
    ∃ key, Names door key ∧ role? g key = some "key"
  door : ∀ {key}, role? g key = some "key" → ∃ id door, g.edge? id = some door ∧ OpenedBy door key ∧
    ∀ {k corridor}, g.edge? k = some corridor → corridor.dest = key → corridor.src = door.src
  unique : ∀ {id id' door door' key}, g.edge? id = some door → g.edge? id' = some door' →
    OpenedBy door key → OpenedBy door' key → id = id'

/-- What may take the place of a path. The edges run from its source to its destination, or from or to
new rooms. A new dead end is left by no edge and entered by one corridor. A new lock has the only new
key, which lies beside the source. -/
structure Fitting (path : Edge) (nodes : List Node) (edges : List Edge) : Prop where
  src : ∀ e ∈ edges, e.src = path.src ∨ ∃ node ∈ nodes, node.id = e.src ∧ ¬IsAlcove node.label
  dest : ∀ e ∈ edges, e.dest = path.dest ∨ ∃ node ∈ nodes, node.id = e.dest
  corridor : ∀ node ∈ nodes, IsAlcove node.label → ∃ corridor ∈ edges, corridor.dest = node.id ∧
    corridor.src = path.src ∧ corridor.label.string? "type" = some "corridor" ∧
    ∀ e ∈ edges, e.dest = node.id → e = corridor
  key : ∀ door ∈ edges, isLocked door = true →
    ∃ node ∈ nodes, Names door node.id ∧ node.label.string? "role" = some "key"
  door : ∀ node ∈ nodes, node.label.string? "role" = some "key" →
    ∃ door ∈ edges, OpenedBy door node.id ∧ door.src = path.src
  unique : ∀ door ∈ edges, ∀ door' ∈ edges, isLocked door = true → isLocked door' = true → door = door'

theorem layout_seedGraph : Layout seedGraph := by
  have rooms : ∀ node ∈ [⟨entrance, room "entrance"⟩, ⟨goal, room "goal"⟩],
      ¬IsAlcove (Node.label node) := by decide
  have plain {n node} (found : seedGraph.node? n = some node) : ¬IsAlcove node.label :=
    rooms node (found_node_seedGraph found).1
  have free {id door} (found : seedGraph.edge? id = some door) : isLocked door = false := by
    rw [found_edge_seedGraph found]
    exact isLocked_eq_false (stateless_path 0)
  constructor
  · intro n node found alcove
    exact absurd alcove (plain found)
  · intro id door found locked
    rw [free found] at locked
    cases locked
  · intro key role
    obtain ⟨node, found, same⟩ := Option.bind_eq_some_iff.mp role
    exact absurd (.inr same) (plain found)
  · intro id id' door door' key found _ opened _
    have locked := opened.locked
    rw [free found] at locked
    cases locked

variable {g h : Graph} {n key key' : NodeId} {id : EdgeId} {path corridor : Edge} {nodes : List Node}
  {edges : List Edge}

theorem role?_eq_some_iff {role : String} : role? g n = some role ↔
    ∃ node, g.node? n = some node ∧ node.label.string? "role" = some role :=
  Option.bind_eq_some_iff

theorem Names.unique {door : Edge} (names : Names door key) (names' : Names door key') : key = key' := by
  obtain ⟨prereq, there, named⟩ := names
  obtain ⟨_, there', named'⟩ := names'
  rw [there] at there'
  cases there'
  rw [named] at named'
  have texts : key.text = key'.text := Option.some.inj named'
  have parsed := NodeId.parse?_text key
  rw [texts, NodeId.parse?_text] at parsed
  exact (Option.some.inj parsed).symm

section

theorem fitting_of_plain (src : ∀ e ∈ edges, e.src = path.src ∨ ∃ node ∈ nodes, node.id = e.src)
    (dest : ∀ e ∈ edges, e.dest = path.dest ∨ ∃ node ∈ nodes, node.id = e.dest)
    (plain : ∀ node ∈ nodes, ¬IsAlcove node.label) (free : ∀ e ∈ edges, isLocked e = false) :
    Fitting path nodes edges where
  src e member := by
    refine (src e member).imp_right ?_
    rintro ⟨node, new, same⟩
    exact ⟨node, new, same, plain node new⟩
  dest := dest
  corridor node new alcove := absurd alcove (plain node new)
  key door member locked := by
    rw [free door member] at locked
    cases locked
  door node new role := absurd (.inr role) (plain node new)
  unique door member _ _ locked := by
    rw [free door member] at locked
    cases locked

/-- A room beside a path, which has a key in it if the path is locked. -/
theorem fitting_of_beside {way : Edge} {node : Node} (listed : ∀ e, e ∈ edges ↔ e = way ∨ e = corridor)
    (wayEnds : way.src = path.src ∧ way.dest = path.dest)
    (corridorEnds : corridor.src = path.src ∧ corridor.dest = node.id)
    (type : corridor.label.string? "type" = some "corridor") (free : isLocked corridor = false)
    (apart : path.dest ≠ node.id)
    (names : isLocked way = true → Names way node.id ∧ node.label.string? "role" = some "key")
    (lock : node.label.string? "role" = some "key" → isLocked way = true) :
    Fitting path [node] edges where
  src e member := by
    rcases (listed e).mp member with rfl | rfl
    · exact .inl wayEnds.1
    · exact .inl corridorEnds.1
  dest e member := by
    rcases (listed e).mp member with rfl | rfl
    · exact .inl wayEnds.2
    · exact .inr ⟨node, .head _, corridorEnds.2.symm⟩
  corridor other new _ := by
    cases List.mem_singleton.mp new
    refine ⟨corridor, (listed _).mpr (.inr rfl), corridorEnds.2, corridorEnds.1, type, ?_⟩
    intro e member enters
    rcases (listed e).mp member with rfl | rfl
    · exact absurd (wayEnds.2.symm.trans enters) apart
    · rfl
  key door member locked := by
    rcases (listed door).mp member with rfl | rfl
    · exact ⟨node, .head _, names locked⟩
    · rw [free] at locked
      cases locked
  door other new role := by
    cases List.mem_singleton.mp new
    have locked := lock role
    exact ⟨way, (listed _).mpr (.inl rfl), ⟨locked, (names locked).1⟩, wayEnds.1⟩
  unique door member door' member' locked locked' := by
    have only {e : Edge} (member : e ∈ edges) (locked : isLocked e = true) : e = way := by
      rcases (listed e).mp member with same | rfl
      · exact same
      · rw [free] at locked
        cases locked
    rw [only member locked, only member' locked']

variable {settings : DungeonSettings} {text : TextGenerator} {m : MatchedEdge} {k k' : EdgeId}

theorem Production.fitting (production : Production settings text m n k k' nodes edges)
    (undecided : isUndecidedPath m.edge = true) (apart : ∀ node ∈ nodes, m.edge.dest ≠ node.id) :
    Fitting m.edge nodes edges := by
  have stateless := (isUndecidedPath_iff.mp undecided).2
  have pair (a b e : Edge) : e ∈ [a, b] ↔ e = a ∨ e = b := by simp
  cases production with
  | chamber =>
    have free (id : EdgeId) (src dest : NodeId) :
        isLocked ⟨id, src, dest, path (depth m.edge + 1), none⟩ = false :=
      isLocked_eq_false (stateless_path _)
    apply fitting_of_plain
    · exact List.forall_mem_cons.mpr ⟨.inl rfl, List.forall_mem_singleton.mpr
        (.inr ⟨_, .head _, rfl⟩)⟩
    · exact List.forall_mem_cons.mpr ⟨.inr ⟨_, .head _, rfl⟩, List.forall_mem_singleton.mpr (.inl rfl)⟩
    · have plain : ¬IsAlcove (room "chamber") := by decide
      exact List.forall_mem_singleton.mpr plain
    · exact List.forall_mem_cons.mpr ⟨free .., List.forall_mem_singleton.mpr (free ..)⟩
  | fork =>
    have free (id : EdgeId) : isLocked ((deeper m).bound [] id m.edge.src m.edge.dest) = false :=
      isLocked_bound (stateless_deeper stateless) ..
    apply fitting_of_plain
    · exact List.forall_mem_cons.mpr ⟨.inl rfl, List.forall_mem_singleton.mpr (.inl rfl)⟩
    · exact List.forall_mem_cons.mpr ⟨.inl rfl, List.forall_mem_singleton.mpr (.inl rfl)⟩
    · intro node none
      cases none
    · exact List.forall_mem_cons.mpr ⟨free _, List.forall_mem_singleton.mpr (free _)⟩
  | side =>
    have free : isLocked ((deeper m).bound [("$side", n)] k m.edge.src m.edge.dest) = false :=
      isLocked_bound (stateless_deeper stateless) ..
    refine fitting_of_beside (pair _ _) ⟨rfl, rfl⟩ ⟨rfl, rfl⟩ rfl (isLocked_eq_false rfl)
      (apart _ (.head _)) (fun locked => ?_) (fun role => ?_)
    · rw [free] at locked
      cases locked
    · exact absurd (Option.some.inj role) (by decide)
  | lock =>
    refine fitting_of_beside (fun e => (pair _ _ e).trans or_comm) ⟨rfl, rfl⟩ ⟨rfl, rfl⟩ ?_ (isLocked_eq_false ?_)
      (apart _ (.head _)) (fun locked => ⟨?_, rfl⟩) (fun role => ?_)
    · rw [Label.string?_mapStrings, string?_keyCorridor]
      rfl
    · exact (Label.contains_mapStrings ..).trans (stateless_keyCorridor m.src)
    · exact ⟨_, rfl, rfl⟩
    · rw [isLocked, Label.string?_mapStrings, Label.string?_merge_self]
      rfl
  | opened =>
    apply fitting_of_plain
    · exact List.forall_mem_singleton.mpr (.inl rfl)
    · exact List.forall_mem_singleton.mpr (.inl rfl)
    · intro node none
      cases none
    · refine List.forall_mem_singleton.mpr ?_
      rw [isLocked, Label.string?_merge_self]
      rfl

end

section

variable (replaced : Replaced g path nodes edges h)

include replaced

theorem Replaced.ne_of_corridor {edge : Edge} (type : edge.label.string? "type" = some "corridor") :
    edge ≠ path := by
  rintro rfl
  have path := (isUndecidedPath_iff.mp replaced.undecided).1
  rw [type] at path
  exact absurd (Option.some.inj path) (by decide)

theorem Replaced.ne_of_locked {edge : Edge} (locked : isLocked edge = true) : edge ≠ path := by
  rintro rfl
  have stateless := (isUndecidedPath_iff.mp replaced.undecided).2
  rw [isLocked_eq_false stateless] at locked
  cases locked

theorem Replaced.kept {k : EdgeId} {edge : Edge} (found : g.edge? k = some edge) (other : edge ≠ path) :
    h.edge? k = some edge := by
  refine replaced.adds.found_edge.mpr (.inl ?_)
  rw [Graph.edge?_eraseEdge]
  split
  · next same =>
    rw [← same, replaced.found] at found
    exact absurd (Option.some.inj found).symm other
  · exact found

theorem Replaced.edge_cases {k : EdgeId} {edge : Edge} (found : h.edge? k = some edge) :
    g.edge? k = some edge ∨ edge ∈ edges ∧ edge.id = k := by
  refine (replaced.adds.found_edge.mp found).imp_left fun old => ?_
  rw [Graph.edge?_eraseEdge] at old
  split at old
  · cases old
  · exact old

theorem Replaced.node_kept {node : Node} (found : g.node? n = some node) : h.node? n = some node :=
  replaced.adds.found_node.mpr (.inl found)

theorem Replaced.node_cases {node : Node} (found : h.node? n = some node) :
    g.node? n = some node ∨ node ∈ nodes ∧ node.id = n :=
  replaced.adds.found_node.mp found

theorem Replaced.role?_kept {role : String} (known : role? g n = some role) : role? h n = some role := by
  obtain ⟨node, found, same⟩ := role?_eq_some_iff.mp known
  exact role?_eq_some_iff.mpr ⟨node, replaced.node_kept found, same⟩

theorem Replaced.ne_of_new (present : g.hasNode n = true) {node : Node} (new : node ∈ nodes) : node.id ≠ n := by
  rintro rfl
  rw [replaced.fresh node new] at present
  cases present

theorem Replaced.apart {k : EdgeId} {edge : Edge} (found : g.edge? k = some edge)
    {node : Node} (new : node ∈ nodes) : edge.src ≠ node.id ∧ edge.dest ≠ node.id := by
  obtain ⟨src, dest⟩ := Graph.ends found
  exact ⟨(replaced.ne_of_new src new).symm, (replaced.ne_of_new dest new).symm⟩

variable (fitting : Fitting path nodes edges)

include fitting

theorem DeadEnd.apart (deadEnd : DeadEnd g n id corridor) (present : g.hasNode n = true) {e : Edge}
    (new : e ∈ edges) : e.src ≠ n ∧ e.dest ≠ n := by
  constructor
  · rintro rfl
    rcases fitting.src e new with same | ⟨node, member, same, _⟩
    · exact deadEnd.closed replaced.found same.symm
    · exact replaced.ne_of_new present member same
  · rintro rfl
    rcases fitting.dest e new with same | ⟨node, member, same⟩
    · have here := deadEnd.only replaced.found same.symm
      have there := replaced.found
      rw [here, deadEnd.found] at there
      exact replaced.ne_of_corridor deadEnd.type (Option.some.inj there)
    · exact replaced.ne_of_new present member same

theorem DeadEnd.replace (deadEnd : DeadEnd g n id corridor) (present : g.hasNode n = true) :
    DeadEnd h n id corridor where
  found := replaced.kept deadEnd.found (replaced.ne_of_corridor deadEnd.type)
  dest := deadEnd.dest
  type := deadEnd.type
  only found dest := by
    rcases replaced.edge_cases found with old | ⟨new, _⟩
    · exact deadEnd.only old dest
    · exact absurd dest (deadEnd.apart replaced fitting present new).2
  closed found := by
    rcases replaced.edge_cases found with old | ⟨new, _⟩
    · exact deadEnd.closed old
    · exact (deadEnd.apart replaced fitting present new).1

theorem Fitting.deadEnd {node : Node} (new : node ∈ nodes)
    (alcove : IsAlcove node.label) : ∃ id corridor, DeadEnd h node.id id corridor := by
  obtain ⟨corridor, member, dest, src, type, only⟩ := fitting.corridor node new alcove
  refine ⟨corridor.id, corridor, replaced.adds.new_edge member, dest, type,
    fun found enters => ?_, fun found leaves => ?_⟩
  · rcases replaced.edge_cases found with old | ⟨new', here⟩
    · exact absurd enters (replaced.apart old new).2
    · rw [← here, only _ new' enters]
  · rcases replaced.edge_cases found with old | ⟨new', _⟩
    · exact (replaced.apart old new).1 leaves
    · rcases fitting.src _ new' with same | ⟨other, new'', same, passage⟩
      · exact (replaced.apart replaced.found new).1 (same.symm.trans leaves)
      · have first := replaced.adds.new_node new
        have second := replaced.adds.new_node new''
        rw [same, leaves, first] at second
        cases second
        exact passage alcove

theorem Layout.not_openedBy (layout : Layout g) {k : EdgeId} {old new : Edge} (there : g.edge? k = some old)
    (member : new ∈ edges) (byOld : OpenedBy old key) : ¬OpenedBy new key := by
  intro byNew
  obtain ⟨_, names, role⟩ := layout.key there byOld.locked
  obtain ⟨node, fresh, names', _⟩ := fitting.key new member byNew.locked
  cases names.unique byOld.names
  cases names'.unique byNew.names
  obtain ⟨_, found, _⟩ := role?_eq_some_iff.mp role
  exact replaced.ne_of_new (Graph.hasNode_of_node? found) fresh rfl

theorem Layout.replace (layout : Layout g) : Layout h where
  deadEnd {n node} found alcove := by
    rcases replaced.node_cases found with old | ⟨new, rfl⟩
    · obtain ⟨id, corridor, deadEnd⟩ := layout.deadEnd old alcove
      exact ⟨id, corridor, deadEnd.replace replaced fitting (Graph.hasNode_of_node? old)⟩
    · exact fitting.deadEnd replaced new alcove
  key {id door} found locked := by
    rcases replaced.edge_cases found with old | ⟨new, _⟩
    · obtain ⟨key, names, role⟩ := layout.key old locked
      exact ⟨key, names, replaced.role?_kept role⟩
    · obtain ⟨node, member, names, role⟩ := fitting.key door new locked
      exact ⟨node.id, names, role?_eq_some_iff.mpr ⟨node, replaced.adds.new_node member, role⟩⟩
  door {key} role := by
    obtain ⟨node, found, isKey⟩ := role?_eq_some_iff.mp role
    rcases replaced.node_cases found with old | ⟨new, rfl⟩
    · -- The door is locked already, so it is not the path that goes.
      have known : role? g key = some "key" := role?_eq_some_iff.mpr ⟨node, old, isKey⟩
      obtain ⟨id, door, there, opened, beside⟩ := layout.door known
      have other := replaced.ne_of_locked opened.locked
      refine ⟨id, door, replaced.kept there other, opened, fun found enters => ?_⟩
      rcases replaced.edge_cases found with before | ⟨new, _⟩
      · exact beside before enters
      · obtain ⟨_, _, deadEnd⟩ := layout.deadEnd old (.inr isKey)
        exact absurd enters (deadEnd.apart replaced fitting (Graph.hasNode_of_node? old) new).2
    · obtain ⟨door, member, opened, src⟩ := fitting.door node new isKey
      refine ⟨door.id, door, replaced.adds.new_edge member, opened, fun found enters => ?_⟩
      rcases replaced.edge_cases found with before | ⟨new', _⟩
      · exact absurd enters (replaced.apart before new).2
      · obtain ⟨corridor, _, _, start, _, only⟩ := fitting.corridor node new (.inr isKey)
        rw [only _ new' enters, start, src]
  unique {id id' door door' key} found found' opened opened' := by
    rcases replaced.edge_cases found with old | ⟨new, here⟩
    · rcases replaced.edge_cases found' with old' | ⟨new', _⟩
      · exact layout.unique old old' opened opened'
      · exact absurd opened' (layout.not_openedBy replaced fitting old new' opened)
    · rcases replaced.edge_cases found' with old' | ⟨new', here'⟩
      · exact absurd opened (layout.not_openedBy replaced fitting old' new opened')
      · rw [← here, ← here', fitting.unique door new door' new' opened.locked opened'.locked]

end

theorem Layout.modifyNodeLabel (layout : Layout g) {f : Label → Label} {node : Node}
    (found : g.node? n = some node) (role : (f node.label).string? "role" = node.label.string? "role") :
    Layout (g.modifyNodeLabel n f) := by
  have back {k : NodeId} {written : Node} (there : (g.modifyNodeLabel n f).node? k = some written) :
      ∃ old, g.node? k = some old ∧ written.label.string? "role" = old.label.string? "role" := by
    rw [Graph.node?_modifyNodeLabel] at there
    split at there
    · next same =>
      subst same
      rw [found] at there
      cases there
      exact ⟨node, found, role⟩
    · exact ⟨written, there, rfl⟩
  have roles (k : NodeId) : role? (g.modifyNodeLabel n f) k = role? g k := by
    rw [role?, role?, Graph.node?_modifyNodeLabel]
    split
    · next same =>
      subst same
      simp [found, role]
    · rfl
  constructor
  · intro k written there alcove
    obtain ⟨old, before, same⟩ := back there
    have alcove' : IsAlcove old.label := by
      rw [IsAlcove, ← same]
      exact alcove
    obtain ⟨id, corridor, deadEnd⟩ := layout.deadEnd before alcove'
    exact ⟨id, corridor, deadEnd.found, deadEnd.dest, deadEnd.type, deadEnd.only, deadEnd.closed⟩
  · intro id door there locked
    obtain ⟨key, names, isKey⟩ := layout.key there locked
    exact ⟨key, names, (roles key).trans isKey⟩
  · intro key isKey
    exact layout.door ((roles key).symm.trans isKey)
  · exact layout.unique

end GraphGrammar.Dungeon
