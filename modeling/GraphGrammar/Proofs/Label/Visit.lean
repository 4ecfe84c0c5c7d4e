import GraphGrammar.Proofs.Label.Equality
import GraphGrammar.Proofs.Label.Texts

/-!
Visits of the texts of a label. The texts are listed with their places, depth first. In any monad, a visit asks for
each text of the list once, in this order, and puts the answers in the places of the texts. Everything else in the
label stays.
-/

namespace GraphGrammar

def Branch.Before : Branch → Branch → Prop
  | .key a, .key b => a < b
  | .item i, .item j => i < j
  | .key _, .item _ | .item _, .key _ => False

def Precedes (a b : List Branch) : Prop := List.Lex Branch.Before a b

def under (branch : Branch) (leaf : List Branch × String) : List Branch × String := (branch :: leaf.1, leaf.2)

mutual

/-- The texts of a value with their places, in the order in which they stand there. -/
def Value.leaves : Value → List (List Branch × String)
  | .bool _ | .num _ => []
  | .str s => [([], s)]
  | .list items => leavesOfItems 0 items
  | .map entries => leavesOfEntries entries
termination_by structural v => v

def leavesOfItems (position : Nat) : List Value → List (List Branch × String)
  | [] => []
  | v :: rest => v.leaves.map (under (.item position)) ++ leavesOfItems (position + 1) rest
termination_by structural vs => vs

def leavesOfEntries : List (String × Value) → List (List Branch × String)
  | [] => []
  | (key, v) :: rest => v.leaves.map (under (.key key)) ++ leavesOfEntries rest
termination_by structural es => es

end

namespace Value

def parts : Value → List (Branch × Value)
  | .bool _ | .num _ | .str _ => []
  | .list items => items.zipIdx.map fun (v, position) => (.item position, v)
  | .map entries => entries.map fun (key, v) => (.key key, v)

theorem mem_parts_iff {v : Value} (ordered : v.Ordered) {branch : Branch} {part : Value} :
    (branch, part) ∈ v.parts ↔ v.part? branch = some part := by
  cases v with
  | bool | num | str => cases branch <;> simp [parts, part?]
  | list items =>
    cases branch with
    | key => simp [parts, part?]
    | item position => simp [parts, part?, List.mem_zipIdx_iff_getElem?]
  | map entries =>
    have distinct := Entries.Ordered.nodup_keys ordered
    cases branch with
    | item => simp [parts, part?]
    | key key =>
      simp only [parts, part?, List.mem_map, Prod.mk.injEq, Branch.key.injEq]
      constructor
      · rintro ⟨e, member, rfl, rfl⟩
        exact Entries.find?_of_mem distinct member
      · intro found
        exact ⟨(key, part), Entries.mem_of_find? found, rfl, rfl⟩

theorem ordered_of_mem_parts {v : Value} (ordered : v.Ordered) {p : Branch × Value} (member : p ∈ v.parts) :
    p.2.Ordered := by
  cases v with
  | bool | num | str => cases member
  | list items =>
    obtain ⟨⟨w, i⟩, listed, rfl⟩ := List.mem_map.mp member
    have inside : OrderedItems items := ordered
    exact orderedItems_iff.mp inside w (List.fst_mem_of_mem_zipIdx listed)
  | map entries =>
    obtain ⟨e, listed, rfl⟩ := List.mem_map.mp member
    exact Entries.Ordered.find? ordered (Entries.find?_of_mem (Entries.Ordered.nodup_keys ordered) listed)

theorem pairwise_parts {v : Value} (ordered : v.Ordered) : v.parts.Pairwise fun p q => p.1.Before q.1 := by
  cases v with
  | bool | num | str => exact .nil
  | list items =>
    have positions : (items.zipIdx.map Prod.snd).Pairwise (· < ·) := by
      rw [List.zipIdx_map_snd]
      exact List.pairwise_lt_range' 1
    exact List.pairwise_map.mpr ((List.pairwise_map.mp positions).imp fun before => before)
  | map entries => exact List.pairwise_map.mpr ((List.pairwise_map.mp ordered.1).imp fun before => before)

theorem sizeOf_lt_of_mem_parts {v : Value} {p : Branch × Value} (member : p ∈ v.parts) : sizeOf p.2 < sizeOf v := by
  cases v with
  | bool | num | str => cases member
  | list items =>
    obtain ⟨⟨w, i⟩, listed, rfl⟩ := List.mem_map.mp member
    have smaller : sizeOf w < sizeOf items := List.sizeOf_lt_of_mem (List.fst_mem_of_mem_zipIdx listed)
    simp only [Value.list.sizeOf_spec]
    omega
  | map entries =>
    obtain ⟨⟨key, w⟩, listed, rfl⟩ := List.mem_map.mp member
    have smaller := List.sizeOf_lt_of_mem listed
    simp only [Value.map.sizeOf_spec, Prod.mk.sizeOf_spec] at smaller ⊢
    omega

theorem part_induction {motive : Value → Prop} (step : ∀ v, (∀ p ∈ v.parts, motive p.2) → motive v) (v : Value) :
    motive v := step v fun p _ => part_induction step p.2
termination_by v
decreasing_by exact sizeOf_lt_of_mem_parts ‹_›

end Value

theorem leavesOfItems_eq (position : Nat) (items : List Value) : leavesOfItems position items =
    (items.zipIdx position).flatMap fun p => p.1.leaves.map (under (.item p.2)) := by
  induction items generalizing position with
  | nil => rfl
  | cons v rest ih => rw [leavesOfItems, ih, List.zipIdx_cons, List.flatMap_cons]

theorem leavesOfEntries_eq (entries : List (String × Value)) : leavesOfEntries entries =
    entries.flatMap fun e => e.2.leaves.map (under (.key e.1)) := by
  induction entries with
  | nil => rfl
  | cons e rest ih => rw [leavesOfEntries, ih, List.flatMap_cons]

theorem Value.leaves_eq (v : Value) :
    v.leaves = (v.asString?.map fun s => ([], s)).toList ++ v.parts.flatMap fun p => p.2.leaves.map (under p.1) := by
  cases v with
  | bool | num | str => rfl
  | list items =>
    rw [leaves, leavesOfItems_eq, parts, List.flatMap_map]
    rfl
  | map entries =>
    rw [leaves, leavesOfEntries_eq, parts, List.flatMap_map]
    rfl

/-- A list of texts with their places has each text of a value once, and in the order of the places. -/
structure Value.Lists (v : Value) (leaves : List (List Branch × String)) : Prop where
  mem_iff : ∀ place s, (place, s) ∈ leaves ↔ v.at? place = some (.str s)
  pairwise : leaves.Pairwise fun a b => Precedes a.1 b.1

theorem Value.lists_leaves {v : Value} (ordered : v.Ordered) : v.Lists v.leaves := by
  induction v using Value.part_induction with
  | step v ih =>
    have inner (p : Branch × Value) (member : p ∈ v.parts) : p.2.Lists p.2.leaves :=
      ih p member (ordered_of_mem_parts ordered member)
    rw [leaves_eq]
    constructor
    case mem_iff =>
      intro place s
      cases place with
      | nil => cases v <;> simp [asString?, at?, under, eq_comm]
      | cons branch place =>
        simp only [List.mem_append, List.mem_flatMap, List.mem_map, at?_cons_eq_some]
        constructor
        · rintro (whole | ⟨⟨b, part⟩, member, ⟨rest, t⟩, listed, same⟩)
          · cases v <;> simp [asString?] at whole
          · cases same
            exact ⟨part, (mem_parts_iff ordered).mp member, ((inner _ member).mem_iff _ _).mp listed⟩
        · rintro ⟨part, here, below⟩
          have member := (mem_parts_iff ordered).mpr here
          exact .inr ⟨(branch, part), member, (place, s), ((inner _ member).mem_iff _ _).mpr below, rfl⟩
    case pairwise =>
      -- Within a part the texts are in order by induction, and the parts themselves are in order.
      have apart : (v.parts.flatMap fun p => p.2.leaves.map (under p.1)).Pairwise fun a b => Precedes a.1 b.1 := by
        refine List.pairwise_flatMap.mpr ⟨fun p member => ?_, (pairwise_parts ordered).imp fun before => ?_⟩
        · exact List.pairwise_map.mpr ((inner p member).pairwise.imp fun before => .cons before)
        · intro a listedA b listedB
          obtain ⟨_, _, rfl⟩ := List.mem_map.mp listedA
          obtain ⟨_, _, rfl⟩ := List.mem_map.mp listedB
          exact .rel before
      cases v with
      | str s => exact List.pairwise_singleton _ _
      | bool | num | list | map => exact apart

mutual

theorem Value.texts_eq : (v : Value) → v.texts = v.leaves.map Prod.snd
  | .bool _ | .num _ | .str _ => rfl
  | .list items => textsOfItems_eq 0 items
  | .map entries => textsOfEntries_eq entries
termination_by structural v => v

theorem textsOfItems_eq (position : Nat) :
    (items : List Value) → textsOfItems items = (leavesOfItems position items).map Prod.snd
  | [] => rfl
  | v :: rest => by
    rw [textsOfItems, v.texts_eq, textsOfItems_eq (position + 1) rest, leavesOfItems, List.map_append, List.map_map]
    rfl
termination_by structural items => items

theorem textsOfEntries_eq :
    (entries : List (String × Value)) → textsOfEntries entries = (leavesOfEntries entries).map Prod.snd
  | [] => rfl
  | (key, v) :: rest => by
    rw [textsOfEntries, v.texts_eq, textsOfEntries_eq rest, leavesOfEntries, List.map_append, List.map_map]
    rfl
termination_by structural entries => entries

end

mutual

/-- Puts answers in the places of the texts. Where an answer is missing, the text stays. -/
def Value.answered : Value → List (Option String) → Value
  | .bool b, _ => .bool b
  | .num x, _ => .num x
  | .str s, answers => .str (answers.head?.join.getD s)
  | .list items, answers => .list (answeredItems items answers)
  | .map entries, answers => .map (answeredEntries entries answers)
termination_by structural v => v

def answeredItems : List Value → List (Option String) → List Value
  | [], _ => []
  | v :: rest, answers =>
    v.answered (answers.take v.texts.length) :: answeredItems rest (answers.drop v.texts.length)
termination_by structural vs => vs

def answeredEntries : List (String × Value) → List (Option String) → List (String × Value)
  | [], _ => []
  | (key, v) :: rest, answers =>
    (key, v.answered (answers.take v.texts.length)) :: answeredEntries rest (answers.drop v.texts.length)
termination_by structural es => es

end

mutual

theorem Value.frame_answered : (v : Value) → (answers : List (Option String)) → (v.answered answers).frame = v.frame
  | .bool _, _ | .num _, _ | .str _, _ => rfl
  | .list items, answers => congrArg Value.list (frameOfItems_answered items answers)
  | .map entries, answers => congrArg Value.map (frameOfEntries_answered entries answers)
termination_by structural v => v

theorem frameOfItems_answered : (items : List Value) → (answers : List (Option String)) →
    frameOfItems (answeredItems items answers) = frameOfItems items
  | [], _ => rfl
  | v :: rest, _ => congrArg₂ List.cons (v.frame_answered _) (frameOfItems_answered rest _)
termination_by structural items => items

theorem frameOfEntries_answered : (entries : List (String × Value)) → (answers : List (Option String)) →
    frameOfEntries (answeredEntries entries answers) = frameOfEntries entries
  | [], _ => rfl
  | (key, v) :: rest, _ =>
    congrArg₂ List.cons (congrArg (Prod.mk key) (v.frame_answered _)) (frameOfEntries_answered rest _)
termination_by structural entries => entries

end

def answerLeaf (leaf : List Branch × String) (answer : Option String) : List Branch × String :=
  (leaf.1, answer.getD leaf.2)

theorem zipWith_answerLeaf_under (branch : Branch) (leaves : List (List Branch × String))
    (answers : List (Option String)) :
    List.zipWith answerLeaf (leaves.map (under branch)) answers =
      (List.zipWith answerLeaf leaves answers).map (under branch) := by
  rw [List.zipWith_map_left, List.map_zipWith]
  rfl

theorem length_texts (v : Value) : v.texts.length = v.leaves.length := by
  rw [v.texts_eq, List.length_map]

theorem zipWith_answerLeaf_append {v : Value} {branch : Branch} {more : List (List Branch × String)}
    {answers : List (Option String)} (enough : v.texts.length ≤ answers.length) :
    List.zipWith answerLeaf (v.leaves.map (under branch) ++ more) answers =
      (List.zipWith answerLeaf v.leaves (answers.take v.texts.length)).map (under branch) ++
        List.zipWith answerLeaf more (answers.drop v.texts.length) := by
  have front : (v.leaves.map (under branch)).length = (answers.take v.texts.length).length := by
    rw [List.length_map, List.length_take, Nat.min_eq_left enough, length_texts]
  rw [← zipWith_answerLeaf_under, ← List.zipWith_append front, List.take_append_drop]

mutual

theorem Value.leaves_answered : (v : Value) → (answers : List (Option String)) → answers.length = v.texts.length →
    (v.answered answers).leaves = List.zipWith answerLeaf v.leaves answers
  | .bool _, _, _ | .num _, _, _ => rfl
  | .str _, [_], _ => rfl
  | .list items, answers, whole => leavesOfItems_answered 0 items answers whole
  | .map entries, answers, whole => leavesOfEntries_answered entries answers whole
termination_by structural v => v

theorem leavesOfItems_answered (position : Nat) : (items : List Value) → (answers : List (Option String)) →
    answers.length = (textsOfItems items).length →
      leavesOfItems position (answeredItems items answers) =
        List.zipWith answerLeaf (leavesOfItems position items) answers
  | [], _, _ => rfl
  | v :: rest, answers, whole => by
    rw [textsOfItems, List.length_append] at whole
    have first := v.leaves_answered (answers.take v.texts.length) (List.length_take_of_le (by omega))
    have later := leavesOfItems_answered (position + 1) rest (answers.drop v.texts.length)
      (by rw [List.length_drop]; omega)
    rw [answeredItems, leavesOfItems, leavesOfItems, zipWith_answerLeaf_append (by omega), first, later]
termination_by structural items => items

theorem leavesOfEntries_answered : (entries : List (String × Value)) → (answers : List (Option String)) →
    answers.length = (textsOfEntries entries).length →
      leavesOfEntries (answeredEntries entries answers) =
        List.zipWith answerLeaf (leavesOfEntries entries) answers
  | [], _, _ => rfl
  | (key, v) :: rest, answers, whole => by
    rw [textsOfEntries, List.length_append] at whole
    have first := v.leaves_answered (answers.take v.texts.length) (List.length_take_of_le (by omega))
    have later := leavesOfEntries_answered rest (answers.drop v.texts.length) (by rw [List.length_drop]; omega)
    rw [answeredEntries, leavesOfEntries, leavesOfEntries, zipWith_answerLeaf_append (by omega), first, later]
termination_by structural entries => entries

end

section

variable {m : Type → Type} [Monad m] [LawfulMonad m]

/-- What goes on after a list was gone through may rely on an answer to each of its elements. -/
theorem bind_mapM_congr {α β γ : Type} {f : α → m β} {xs : List α} {g h : List β → m γ}
    (same : ∀ ys, ys.length = xs.length → g ys = h ys) : xs.mapM f >>= g = xs.mapM f >>= h := by
  induction xs generalizing g h with
  | nil => simp only [List.mapM_nil, pure_bind, same [] rfl]
  | cons x rest ih =>
    simp only [List.mapM_cons, bind_assoc, pure_bind]
    congr 1
    funext y
    exact ih fun ys length => same (y :: ys) (congrArg (· + 1) length)

/-- The texts of a part are asked for before those behind it, and the answers are told apart by their number. -/
theorem map_mapM_append {α : Type} (f : String → m (Option String)) (first later : List String)
    (g : List (Option String) → List (Option String) → α) :
    (fun answers => g (answers.take first.length) (answers.drop first.length)) <$> (first ++ later).mapM f =
      first.mapM f >>= fun front => later.mapM f >>= fun back => pure (g front back) := by
  simp only [List.mapM_append, map_eq_pure_bind, bind_assoc, pure_bind]
  refine bind_mapM_congr fun front length => ?_
  simp only [← length, List.take_left, List.drop_left]

variable (f : String → m (Option String))

mutual

theorem Value.mapStringsM_eq : (v : Value) → v.mapStringsM f = v.answered <$> v.texts.mapM f
  | .bool _ | .num _ | .str _ => by simp [Value.mapStringsM, Value.texts, Value.answered]
  | .list items => by
    rw [Value.mapStringsM, mapStringsItemsM_eq items]
    simp [Value.texts, Value.answered]
  | .map entries => by
    rw [Value.mapStringsM, mapStringsEntriesM_eq entries]
    simp [Value.texts, Value.answered]
termination_by structural v => v

theorem mapStringsItemsM_eq :
    (items : List Value) → mapStringsItemsM f items = answeredItems items <$> (textsOfItems items).mapM f
  | [] => by simp [mapStringsItemsM, textsOfItems, answeredItems]
  | v :: rest => by
    have split := map_mapM_append f v.texts (textsOfItems rest) fun front back =>
      v.answered front :: answeredItems rest back
    rw [mapStringsItemsM, v.mapStringsM_eq, mapStringsItemsM_eq rest]
    simp only [map_eq_pure_bind, bind_assoc, pure_bind] at split ⊢
    exact split.symm
termination_by structural items => items

theorem mapStringsEntriesM_eq : (entries : List (String × Value)) →
    mapStringsEntriesM f entries = answeredEntries entries <$> (textsOfEntries entries).mapM f
  | [] => by simp [mapStringsEntriesM, textsOfEntries, answeredEntries]
  | (key, v) :: rest => by
    have split := map_mapM_append f v.texts (textsOfEntries rest) fun front back =>
      (key, v.answered front) :: answeredEntries rest back
    rw [mapStringsEntriesM, v.mapStringsM_eq, mapStringsEntriesM_eq rest]
    simp only [map_eq_pure_bind, bind_assoc, pure_bind] at split ⊢
    exact split.symm
termination_by structural entries => entries

end

end

theorem keys_frameOfEntries (entries : Entries) : Entries.keys (frameOfEntries entries) = Entries.keys entries := by
  induction entries with
  | nil => rfl
  | cons e rest ih => exact congrArg (e.1 :: ·) ih

mutual

theorem Value.ordered_frame_iff : (v : Value) → (v.frame.Ordered ↔ v.Ordered)
  | .bool _ | .num _ | .str _ => Iff.rfl
  | .list items => ordered_frameOfItems_iff items
  | .map entries => and_congr (by rw [keys_frameOfEntries]) (ordered_frameOfEntries_iff entries)
termination_by structural v => v

theorem ordered_frameOfItems_iff : (items : List Value) → (OrderedItems (frameOfItems items) ↔ OrderedItems items)
  | [] => Iff.rfl
  | v :: rest => and_congr v.ordered_frame_iff (ordered_frameOfItems_iff rest)
termination_by structural items => items

theorem ordered_frameOfEntries_iff :
    (entries : List (String × Value)) → (OrderedEntries (frameOfEntries entries) ↔ OrderedEntries entries)
  | [] => Iff.rfl
  | (_, v) :: rest => and_congr v.ordered_frame_iff (ordered_frameOfEntries_iff rest)
termination_by structural entries => entries

end

theorem Value.ordered_answered (v : Value) (answers : List (Option String)) :
    (v.answered answers).Ordered ↔ v.Ordered := by
  rw [← ordered_frame_iff, frame_answered, ordered_frame_iff]

namespace Label

def leaves (label : Label) : List (List Branch × String) := label.toValue.leaves

/-- The result has the answers in the places of the texts of a label. Where the answer is none, the text stays, and
so does all that is no text. -/
structure AnsweredBy (label : Label) (answers : List (Option String)) (result : Label) : Prop where
  length : answers.length = label.leaves.length
  answer : ∀ (i : Nat) (place : List Branch) (s : String) (answer : Option String),
    label.leaves[i]? = some (place, s) → answers[i]? = some answer →
      result.at? place = some (.str (answer.getD s))
  frame : result.frame = label.frame

def answered (label : Label) (answers : List (Option String)) : Label where
  entries := answeredEntries label.entries answers
  ordered := (label.toValue.ordered_answered answers).mpr label.ordered

theorem answeredBy_answered {label : Label} {answers : List (Option String)}
    (length : answers.length = label.leaves.length) : label.AnsweredBy answers (label.answered answers) where
  length := length
  answer i place s answer leaf here := by
    have leaves := label.toValue.leaves_answered answers (length.trans (length_texts _).symm)
    have listed : label.toValue.leaves[i]? = some (place, s) := leaf
    have member : (place, answer.getD s) ∈ (label.toValue.answered answers).leaves := by
      refine List.mem_of_getElem? (i := i) ?_
      rw [leaves, List.getElem?_zipWith, listed, here]
      rfl
    exact ((Value.lists_leaves (label.answered answers).ordered).mem_iff place _).mp member
  frame := label.toValue.frame_answered answers

theorem mapStringsM_eq {m : Type → Type} [Monad m] [LawfulMonad m] (f : String → m (Option String)) (label : Label) :
    label.mapStringsM f = label.answered <$> (label.leaves.map Prod.snd).mapM f := by
  have texts : label.leaves.map Prod.snd = textsOfEntries label.entries := label.toValue.texts_eq.symm
  have result (answers : List (Option String)) :
      ofList (answeredEntries label.entries answers) = label.answered answers :=
    ofList_of_ordered (label.answered answers).ordered
  rw [mapStringsM, mapStringsEntriesM_eq, texts, map_eq_pure_bind, map_eq_pure_bind, bind_assoc]
  simp only [pure_bind, result]

theorem length_run_mapM {State α β : Type} (f : α → StateM State β) (xs : List α) (before : State) :
    ((xs.mapM f).run before).1.length = xs.length := by
  induction xs generalizing before with
  | nil => rfl
  | cons x rest ih =>
    rw [List.mapM_cons, List.length_cons, ← ih ((f x).run before).2]
    rfl

/-- A visit asks for each text of a label once, depth first, and puts the answers in the places of the texts. Two
replacements in a row are one. -/
theorem mapStringsM_visits (label : Label) :
    label.toValue.Lists label.leaves ∧
      (∀ (State : Type) (f : String → StateM State (Option String)) (before : State),
        ∃ answers after result, ((label.leaves.map Prod.snd).mapM f).run before = (answers, after) ∧
          (label.mapStringsM f).run before = (result, after) ∧ label.AnsweredBy answers result) ∧
      ∀ f g, (label.mapStrings f).mapStrings g = label.mapStrings fun s => (g ((f s).getD s)).or (f s) := by
  refine ⟨Value.lists_leaves label.ordered, fun State f before => ?_,
    fun f g => mapStrings_mapStrings (fun s => ?_) label⟩
  · have length := length_run_mapM f (label.leaves.map Prod.snd) before
    rw [List.length_map] at length
    refine ⟨_, _, label.answered _, rfl, ?_, answeredBy_answered length⟩
    rw [mapStringsM_eq]
    rfl
  · cases g ((f s).getD s) with
    | none => rfl
    | some t => rfl

/-- A visit that counts the texts and gives each the number of those before it, but leaves one of them alone. -/
theorem mapStringsM_visits_numbered :
    let label : Label := .ofList [("a", .list [.str "x", .bool true, .map [("k", .str "keep"), ("l", .str "y")]]),
      ("b", .num ⟨0⟩), ("c", .str "z")]
    let number (s : String) : StateM Nat (Option String) := fun n =>
      (if s = "keep" then none else some (String.ofList (Nat.toDigits 10 n)), n + 1)
    label.toValue.Lists label.leaves ∧ label.leaves.length = 4 ∧
      (label.mapStringsM number).run 0 =
        (.ofList [("a", .list [.str "0", .bool true, .map [("k", .str "keep"), ("l", .str "2")]]), ("b", .num ⟨0⟩),
          ("c", .str "3")], 4) ∧
      ∃ answers, label.AnsweredBy answers ((label.mapStringsM number).run 0).1 := by
  intro label number
  obtain ⟨lists, visits, _⟩ := mapStringsM_visits label
  obtain ⟨answers, after, result, _, visited, answered⟩ := visits Nat number 0
  exact ⟨lists, rfl, rfl, answers, visited ▸ answered⟩

end Label

end GraphGrammar
