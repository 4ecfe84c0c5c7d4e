import GraphGrammar.Application
import GraphGrammar.Graph.Lemmas
import GraphGrammar.Proofs.Label.Merging

/-!
Rules that merge a patch into the label of a node or of an edge. Applied one after the other, they merge
their patches into each label in this order. Where a patch matches already, its rule leaves the label equal,
and where the patches for a label never disagree, their order does not matter to it.
-/

namespace GraphGrammar

inductive Carrier where
  | node (id : NodeId)
  | edge (id : EdgeId)
deriving DecidableEq

/-- Where a rule merges a patch when it is applied, and this patch. -/
def Candidate.patch? (c : Candidate) : Option (Carrier × Label) :=
  match c.rule.kind, c.site with
  | .node _ (.merge patch), .node id => some (.node id, patch)
  | .edge _ (.merge patch), .edge id _ _ => some (.edge id, patch)
  | _, _ => none

/-- The patches that candidates merge into the label of a node or of an edge, one after the other. -/
def Carrier.patches (x : Carrier) (cs : List Candidate) : List Label :=
  ((cs.filterMap Candidate.patch?).filter fun e => e.1 = x).map Prod.snd

theorem Candidate.patch?_eq_some {c : Candidate} {y : Carrier} {patch : Label}
    (merges : c.patch? = some (y, patch)) :
    (∃ condition id, c.rule.kind = .node condition (.merge patch) ∧ c.site = .node id ∧ y = .node id) ∨
      ∃ pattern id src dest, c.rule.kind = .edge pattern (.merge patch) ∧ c.site = .edge id src dest ∧
        y = .edge id := by
  unfold patch? at merges
  split at merges
  · next condition patch id kind site =>
    cases merges
    exact .inl ⟨condition, id, kind, site, rfl⟩
  · next pattern patch id src dest kind site =>
    cases merges
    exact .inr ⟨pattern, id, src, dest, kind, site, rfl⟩
  · cases merges

theorem Carrier.patches_cons {c : Candidate} {y : Carrier} {patch : Label}
    (merges : c.patch? = some (y, patch)) (x : Carrier) (cs : List Candidate) :
    x.patches (c :: cs) = if y = x then patch :: x.patches cs else x.patches cs := by
  rw [patches, List.filterMap_cons_some merges, List.filter_cons]
  by_cases here : y = x
  · simp only [here, decide_true, if_true, List.map_cons]
    rfl
  · simp only [here, decide_false, Bool.false_eq_true, if_false]
    rfl

theorem Carrier.patches_perm {cs ds : List Candidate} (perm : cs.Perm ds) (x : Carrier) :
    (x.patches cs).Perm (x.patches ds) :=
  ((perm.filterMap Candidate.patch?).filter _).map Prod.snd

namespace Graph

def labelOf? (g : Graph) : Carrier → Option Label
  | .node id => (g.node? id).map Node.label
  | .edge id => (g.edge? id).map Edge.label

def applyAll (g : Graph) (cs : List Candidate) : Graph := cs.foldl (fun h c => (h.apply c).2) g

theorem labelOf?_modifyNodeLabel (g : Graph) (id : NodeId) (f : Label → Label) (x : Carrier) :
    (g.modifyNodeLabel id f).labelOf? x = (g.labelOf? x).map fun l => if .node id = x then f l else l := by
  cases x with
  | node k =>
    rw [labelOf?, labelOf?, node?_modifyNodeLabel]
    by_cases here : id = k
    · simp only [here, if_true, Option.map_map]
      rfl
    · simp only [if_neg here, Carrier.node.injEq, Option.map_id']
  | edge k => exact (Option.map_id' ..).symm

theorem labelOf?_modifyEdgeLabel (g : Graph) (id : EdgeId) (f : Label → Label) (x : Carrier) :
    (g.modifyEdgeLabel id f).labelOf? x = (g.labelOf? x).map fun l => if .edge id = x then f l else l := by
  cases x with
  | node k => exact (Option.map_id' ..).symm
  | edge k =>
    rw [labelOf?, labelOf?, edge?_modifyEdgeLabel]
    by_cases here : id = k
    · simp only [here, if_true, Option.map_map]
      rfl
    · simp only [if_neg here, Carrier.edge.injEq, Option.map_id']

theorem labelOf?_eq_map_ite {g : Graph} {y : Carrier} (absent : g.labelOf? y = none) (f : Label → Label)
    (x : Carrier) : g.labelOf? x = (g.labelOf? x).map fun l => if y = x then f l else l := by
  by_cases here : y = x
  · rw [← here, absent]
    rfl
  · simp only [if_neg here, Option.map_id']

theorem labelOf?_apply {c : Candidate} {y : Carrier} {patch : Label} (merges : c.patch? = some (y, patch))
    (g : Graph) (x : Carrier) :
    (g.apply c).2.labelOf? x = (g.labelOf? x).map fun l => if y = x then l.merge patch else l := by
  rcases Candidate.patch?_eq_some merges with ⟨condition, id, kind, site, rfl⟩ |
    ⟨pattern, id, src, dest, kind, site, rfl⟩
  · rw [apply, kind, site, applyAt]
    split
    · exact labelOf?_modifyNodeLabel g id _ x
    · next absent =>
      rw [hasNode_eq, Bool.not_eq_true, Option.isSome_eq_false_iff, Option.isNone_iff_eq_none] at absent
      have nothing : g.labelOf? (.node id) = none := congrArg (Option.map Node.label) absent
      exact labelOf?_eq_map_ite nothing _ x
  · rw [apply, kind, site, applyAt]
    split
    · exact labelOf?_modifyEdgeLabel g id _ x
    · next absent =>
      rw [hasEdge_eq, Bool.not_eq_true, Option.isSome_eq_false_iff, Option.isNone_iff_eq_none] at absent
      have nothing : g.labelOf? (.edge id) = none := congrArg (Option.map Edge.label) absent
      exact labelOf?_eq_map_ite nothing _ x

theorem labelOf?_applyAll {cs : List Candidate} (merge : ∀ c ∈ cs, c.patch?.isSome = true) (g : Graph)
    (x : Carrier) : (g.applyAll cs).labelOf? x = (g.labelOf? x).map fun l => (x.patches cs).foldl .merge l := by
  induction cs generalizing g with
  | nil => exact (Option.map_id' ..).symm
  | cons c cs ih =>
    obtain ⟨first, later⟩ := List.forall_mem_cons.mp merge
    obtain ⟨⟨y, patch⟩, merges⟩ := Option.isSome_iff_exists.mp first
    have rest := ih later (g.apply c).2
    rw [labelOf?_apply merges, Option.map_map] at rest
    refine rest.trans (congrArg (Option.map · (g.labelOf? x)) (funext fun l => ?_))
    rw [Carrier.patches_cons merges, Function.comp_apply]
    split
    · rfl
    · rfl

/-- A patch matches inside what it was merged into. Merging it leaves a label equal exactly if it matched
before, so merging it again does, and so does a rule whose patch matches already. A label that matches inside
another one does so after both took the same patch. -/
theorem merging_absorbs {a b p : Label} (okA : a.Comparable) (okP : p.Comparable) :
    p.isSubsetOf (a.merge p) = true ∧
    ((a.merge p == a) = true ↔ p.isSubsetOf a = true) ∧
    ((a.merge p).merge p == a.merge p) = true ∧
    (∀ (g : Graph) (c : Candidate) (x : Carrier), c.patch? = some (x, p) → g.labelOf? x = some a →
      p.isSubsetOf a = true → ∃ after, (g.apply c).2.labelOf? x = some after ∧ (after == a) = true) ∧
    (a.isSubsetOf b = true → (a.merge p).isSubsetOf (b.merge p) = true) := by
  have inside := Label.isSubsetOf_merge okP a
  refine ⟨inside, Label.merge_beq_iff okA okP, (Label.merge_beq_iff (okA.merge okP) okP).mpr inside,
    fun g c x merges here matched => ?_, Label.merge_mono okP⟩
  have after := labelOf?_apply merges g x
  rw [here, Option.map_some, if_pos rfl] at after
  exact ⟨a.merge p, after, (Label.merge_beq_iff okA okP).mpr matched⟩

/-- A room with a chest in which the gold of the patch is already. -/
theorem merging_absorbs_gold :
    let p : Label := .ofList [("chest", .map [("gold", .num 5)]), ("tags", .list [.map []])]
    let a : Label := .ofList [("chest", .map [("gold", .num 5), ("kind", .str "oak")]),
      ("tags", .list [.map []])]
    let b : Label := a.insert "role" (.str "side")
    let g : Graph := ((∅ : Graph).addNode a).2
    let c : Candidate := ⟨⟨"stock", 1, .node .any (.merge p)⟩, .node ⟨0⟩⟩
    (a.Comparable ∧ p.Comparable ∧ c.patch? = some (.node ⟨0⟩, p) ∧
      g.labelOf? (.node ⟨0⟩) = some a ∧ p.isSubsetOf a = true ∧ a.isSubsetOf b = true) ∧
    p.isSubsetOf (a.merge p) = true ∧ (a.merge p == a) = true ∧
      ((a.merge p).merge p == a.merge p) = true ∧
      (∃ after, (g.apply c).2.labelOf? (.node ⟨0⟩) = some after ∧ (after == a) = true) ∧
      (a.merge p).isSubsetOf (b.merge p) = true := by
  intro p a b g c
  have okA : a.Comparable := by decide +kernel
  have okP : p.Comparable := by decide +kernel
  have here : g.labelOf? (.node ⟨0⟩) = some a := by
    rw [labelOf?, node?_addNode]
    rfl
  have matched : p.isSubsetOf a = true := by decide +kernel
  have less : a.isSubsetOf b = true := by decide +kernel
  obtain ⟨inside, same, again, rule, order⟩ := merging_absorbs (b := b) okA okP
  exact ⟨⟨okA, okP, rfl, here, matched, less⟩, inside, same.mpr matched, again,
    rule g c _ rfl here matched, order less⟩

/-- Two patches that never disagree can be merged in either order. Rules that merge patches, such as those of
one tier, may be applied to nodes and edges in any order: a label that takes only patches which never disagree
is equal in the end. -/
theorem merging_commutes :
    (∀ {a p q : Label}, a.Comparable → p.Comparable → q.Comparable → p.Compatible q →
      ((a.merge p).merge q == (a.merge q).merge p) = true) ∧
    ∀ (g : Graph) (cs ds : List Candidate), cs.Perm ds → (∀ c ∈ cs, c.patch?.isSome = true) →
      ∀ (x : Carrier) (a : Label), g.labelOf? x = some a → a.Comparable →
        (∀ p ∈ x.patches cs, p.Comparable) →
        (∀ p ∈ x.patches cs, ∀ q ∈ x.patches cs, p.Compatible q) →
        ∃ b c, (g.applyAll cs).labelOf? x = some b ∧ (g.applyAll ds).labelOf? x = some c ∧
          (b == c) = true := by
  refine ⟨Label.merge_comm, fun g cs ds perm merge x a here ok patched compatible => ?_⟩
  have mergeD : ∀ c ∈ ds, c.patch?.isSome = true := fun c member => merge c (perm.mem_iff.mpr member)
  have first := labelOf?_applyAll merge g x
  have second := labelOf?_applyAll mergeD g x
  rw [here] at first second
  exact ⟨_, _, first, second, Label.foldl_merge_perm (Carrier.patches_perm perm x) patched compatible ok⟩

/-- Two rules fill the chest of a room where a text has been, and the second one also marks a door. -/
theorem merging_commutes_in_chest :
    let a : Label := .ofList [("chest", .str "none"), ("type", .str "room")]
    let p : Label := .ofList [("chest", .map [("gold", .num 5)])]
    let q : Label := .ofList [("chest", .map [("gold", .num 5), ("kind", .str "oak")])]
    let g : Graph := ((∅ : Graph).addNode a).2
    let gold : Candidate := ⟨⟨"gold", 1, .node .any (.merge p)⟩, .node ⟨0⟩⟩
    let oak : Candidate := ⟨⟨"oak", 1, .node .any (.merge q)⟩, .node ⟨0⟩⟩
    let door : Candidate := ⟨⟨"door", 1, .edge {} (.merge q)⟩, .edge ⟨0⟩ ⟨0⟩ ⟨0⟩⟩
    (a.Comparable ∧ p.Comparable ∧ q.Comparable ∧ p.Compatible q ∧
      [gold, door, oak].Perm [oak, gold, door] ∧ g.labelOf? (.node ⟨0⟩) = some a ∧
      Carrier.patches (.node ⟨0⟩) [gold, door, oak] = [p, q]) ∧
    ((a.merge p).merge q == (a.merge q).merge p) = true ∧
      ∃ b c, (g.applyAll [gold, door, oak]).labelOf? (.node ⟨0⟩) = some b ∧
        (g.applyAll [oak, gold, door]).labelOf? (.node ⟨0⟩) = some c ∧ (b == c) = true := by
  intro a p q g gold oak door
  have okA : a.Comparable := by decide +kernel
  have okP : p.Comparable := by decide +kernel
  have okQ : q.Comparable := by decide +kernel
  have fits : ∀ r ∈ [p, q], r.isSubsetOf q = true := by decide +kernel
  have compatible : p.Compatible q := ⟨q, fits p (.head _), fits q (.tail _ (.head _))⟩
  have perm : [gold, door, oak].Perm [oak, gold, door] :=
    (List.perm_append_comm : ([gold, door] ++ [oak]).Perm ([oak] ++ [gold, door]))
  have here : g.labelOf? (.node ⟨0⟩) = some a := by
    rw [labelOf?, node?_addNode]
    rfl
  have patches : Carrier.patches (.node ⟨0⟩) [gold, door, oak] = [p, q] := rfl
  obtain ⟨two, all⟩ := merging_commutes
  refine ⟨⟨okA, okP, okQ, compatible, perm, here, patches⟩, two okA okP okQ compatible, ?_⟩
  refine all g _ _ perm (by decide) _ a here okA ?_ ?_
  · rw [patches]
    exact List.forall_mem_cons.mpr ⟨okP, List.forall_mem_singleton.mpr okQ⟩
  · rw [patches]
    exact fun r inR s inS => ⟨q, fits r inR, fits s inS⟩

end Graph

end GraphGrammar
