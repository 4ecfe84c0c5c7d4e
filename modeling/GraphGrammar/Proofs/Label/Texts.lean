import GraphGrammar.Proofs.Label.Place

/-!
The texts of a value and what is around them. The texts are listed depth first, and the frame is the value with
all of them blank, so that both together determine the value. A replacement of texts keeps the frame and is read
off the list: each text is replaced once, and where two replacements agree on the texts there are, they do the same.
-/

namespace GraphGrammar

mutual

def Value.texts : Value → List String
  | .bool _ | .num _ => []
  | .str s => [s]
  | .list items => textsOfItems items
  | .map entries => textsOfEntries entries
termination_by structural v => v

def textsOfItems : List Value → List String
  | [] => []
  | v :: rest => v.texts ++ textsOfItems rest
termination_by structural vs => vs

def textsOfEntries : List (String × Value) → List String
  | [] => []
  | (_, v) :: rest => v.texts ++ textsOfEntries rest
termination_by structural es => es

end

mutual

/-- The value with blanks for its texts: its keys, numbers, truth values and structure. -/
def Value.frame : Value → Value
  | .bool b => .bool b
  | .num x => .num x
  | .str _ => .str ""
  | .list items => .list (frameOfItems items)
  | .map entries => .map (frameOfEntries entries)
termination_by structural v => v

def frameOfItems : List Value → List Value
  | [] => []
  | v :: rest => v.frame :: frameOfItems rest
termination_by structural vs => vs

def frameOfEntries : List (String × Value) → List (String × Value)
  | [] => []
  | (key, v) :: rest => (key, v.frame) :: frameOfEntries rest
termination_by structural es => es

end

mutual

theorem Value.eq_of_frame_of_texts : (v w : Value) → (more more' : List String) → v.frame = w.frame →
    v.texts ++ more = w.texts ++ more' → v = w ∧ more = more'
  | .bool _, w, _, _, frames, texts => by
    cases w with
    | bool => exact ⟨frames, texts⟩
    | num | str | list | map => cases frames
  | .num _, w, _, _, frames, texts => by
    cases w with
    | num => exact ⟨frames, texts⟩
    | bool | str | list | map => cases frames
  | .str _, w, _, _, frames, texts => by
    cases w with
    | str =>
      obtain ⟨same, rest⟩ := List.cons.inj texts
      exact ⟨congrArg Value.str same, rest⟩
    | bool | num | list | map => cases frames
  | .list items, w, more, more', frames, texts => by
    cases w with
    | list others =>
      obtain ⟨same, rest⟩ := eq_of_frameOfItems_of_texts items others more more' (Value.list.inj frames) texts
      exact ⟨congrArg Value.list same, rest⟩
    | bool | num | str | map => cases frames
  | .map entries, w, more, more', frames, texts => by
    cases w with
    | map others =>
      obtain ⟨same, rest⟩ := eq_of_frameOfEntries_of_texts entries others more more' (Value.map.inj frames) texts
      exact ⟨congrArg Value.map same, rest⟩
    | bool | num | str | list => cases frames
termination_by structural v => v

theorem eq_of_frameOfItems_of_texts : (vs ws : List Value) → (more more' : List String) →
    frameOfItems vs = frameOfItems ws → textsOfItems vs ++ more = textsOfItems ws ++ more' →
      vs = ws ∧ more = more'
  | [], [], _, _, _, texts => ⟨rfl, texts⟩
  | [], _ :: _, _, _, frames, _ => nomatch frames
  | _ :: _, [], _, _, frames, _ => nomatch frames
  | v :: vs, w :: ws, more, more', frames, texts => by
    obtain ⟨head, tail⟩ := List.cons.inj frames
    simp only [textsOfItems, List.append_assoc] at texts
    obtain ⟨rfl, later⟩ := v.eq_of_frame_of_texts w _ _ head texts
    obtain ⟨rfl, rest⟩ := eq_of_frameOfItems_of_texts vs ws more more' tail later
    exact ⟨rfl, rest⟩
termination_by structural vs => vs

theorem eq_of_frameOfEntries_of_texts : (es fs : List (String × Value)) → (more more' : List String) →
    frameOfEntries es = frameOfEntries fs → textsOfEntries es ++ more = textsOfEntries fs ++ more' →
      es = fs ∧ more = more'
  | [], [], _, _, _, texts => ⟨rfl, texts⟩
  | [], _ :: _, _, _, frames, _ => nomatch frames
  | _ :: _, [], _, _, frames, _ => nomatch frames
  | (key, v) :: es, (key', w) :: fs, more, more', frames, texts => by
    obtain ⟨head, tail⟩ := List.cons.inj frames
    obtain ⟨keys, values⟩ := Prod.mk.inj head
    simp only [textsOfEntries, List.append_assoc] at texts
    obtain ⟨rfl, later⟩ := v.eq_of_frame_of_texts w _ _ values texts
    obtain ⟨rfl, rest⟩ := eq_of_frameOfEntries_of_texts es fs more more' tail later
    exact ⟨congrArg (fun k => (k, v) :: es) keys, rest⟩
termination_by structural es => es

end

mutual

theorem Value.texts_mapStrings (f : String → Option String) :
    (v : Value) → (v.mapStrings f).texts = v.texts.map fun s => (f s).getD s
  | .bool _ | .num _ | .str _ => rfl
  | .list items => textsOfItems_mapStrings f items
  | .map entries => textsOfEntries_mapStrings f entries
termination_by structural v => v

theorem textsOfItems_mapStrings (f : String → Option String) : (items : List Value) →
    textsOfItems (Id.run (mapStringsItemsM (fun s => pure (f s)) items)) =
      (textsOfItems items).map fun s => (f s).getD s
  | [] => rfl
  | v :: rest => by
    rw [textsOfItems, List.map_append, ← v.texts_mapStrings f, ← textsOfItems_mapStrings f rest]
    rfl
termination_by structural items => items

theorem textsOfEntries_mapStrings (f : String → Option String) : (entries : List (String × Value)) →
    textsOfEntries (Id.run (mapStringsEntriesM (fun s => pure (f s)) entries)) =
      (textsOfEntries entries).map fun s => (f s).getD s
  | [] => rfl
  | (_, v) :: rest => by
    rw [textsOfEntries, List.map_append, ← v.texts_mapStrings f, ← textsOfEntries_mapStrings f rest]
    rfl
termination_by structural entries => entries

end

mutual

theorem Value.frame_mapStrings (f : String → Option String) :
    (v : Value) → (v.mapStrings f).frame = v.frame
  | .bool _ | .num _ | .str _ => rfl
  | .list items => congrArg Value.list (frameOfItems_mapStrings f items)
  | .map entries => congrArg Value.map (frameOfEntries_mapStrings f entries)
termination_by structural v => v

theorem frameOfItems_mapStrings (f : String → Option String) : (items : List Value) →
    frameOfItems (Id.run (mapStringsItemsM (fun s => pure (f s)) items)) = frameOfItems items
  | [] => rfl
  | v :: rest => congrArg₂ List.cons (v.frame_mapStrings f) (frameOfItems_mapStrings f rest)
termination_by structural items => items

theorem frameOfEntries_mapStrings (f : String → Option String) : (entries : List (String × Value)) →
    frameOfEntries (Id.run (mapStringsEntriesM (fun s => pure (f s)) entries)) = frameOfEntries entries
  | [] => rfl
  | (key, v) :: rest =>
    congrArg₂ List.cons (congrArg (Prod.mk key) (v.frame_mapStrings f)) (frameOfEntries_mapStrings f rest)
termination_by structural entries => entries

end

namespace Label

def texts (label : Label) : List String := label.toValue.texts

def frame (label : Label) : Value := label.toValue.frame

theorem texts_mapStrings (f : String → Option String) (label : Label) :
    (label.mapStrings f).texts = label.texts.map fun s => (f s).getD s := by
  rw [texts, toValue_mapStrings]
  exact label.toValue.texts_mapStrings f

theorem frame_mapStrings (f : String → Option String) (label : Label) :
    (label.mapStrings f).frame = label.frame := by
  rw [frame, toValue_mapStrings]
  exact label.toValue.frame_mapStrings f

theorem eq_of_frame_of_texts {a b : Label} (frames : a.frame = b.frame) (texts : a.texts = b.texts) : a = b := by
  have same : a.toValue = b.toValue :=
    (a.toValue.eq_of_frame_of_texts b.toValue [] [] frames (congrArg (· ++ []) texts)).1
  exact toValue_injective same

theorem mapStrings_congr {f g : String → Option String} {label : Label}
    (agree : ∀ s ∈ label.texts, (f s).getD s = (g s).getD s) : label.mapStrings f = label.mapStrings g := by
  apply eq_of_frame_of_texts
  · simp only [frame_mapStrings]
  · simp only [texts_mapStrings]
    exact List.map_congr_left agree

end Label

end GraphGrammar
