import GraphGrammar.Files

/-!
What is relied on of files. Where files are a state, to read does not change it, and what was written is read. Files
that are held in memory keep to this.
-/

namespace GraphGrammar

theorem fromUTF8?_toByteArray (s : String) : String.fromUTF8? s.toByteArray = some s := by
  unfold String.fromUTF8?
  rw [dif_pos s.isValidUTF8]
  rfl

/-- Reading changes nothing, and gives what was written last. -/
structure FileAccess.Lawful {Files : Type} (access : FileAccess (StateM Files)) : Prop where
  read_keeps : ∀ path files, ((access.read path).run files).2 = files
  read_written : ∀ path bytes files written, (access.write path bytes).run files = (.ok (), written) →
    ((access.read path).run written).1 = .ok bytes

namespace FileTree

variable {t : FileTree} {place : List String} {entry : FileEntry}

theorem lookup_filter_ne {entries : List (List String × FileEntry)} {other : List String} (apart : other ≠ place) :
    (entries.filter fun e => e.1 != place).lookup other = entries.lookup other := by
  induction entries with
  | nil => rfl
  | cons e rest ih =>
    by_cases gone : e.1 = place
    · have differs : (other == e.1) = false := by simpa [gone] using apart
      rw [List.filter_cons_of_neg (by simpa using gone), ih, List.lookup_cons, differs]
    · rw [List.filter_cons_of_pos (by simpa using gone), List.lookup_cons, List.lookup_cons, ih]

theorem get?_put_of_ne {other : List String} (apart : other ≠ place) :
    (t.put place entry).get? other = t.get? other := by
  have differs : (other == place) = false := by simpa using apart
  simp only [get?, put, List.lookup_cons, differs, lookup_filter_ne apart]

theorem get?_put_self (free : t.get? place ≠ some .directory) : (t.put place entry).get? place = some entry := by
  have outside : ¬place.isPrefixOf t.workingDirectory := fun inside => free (if_pos inside)
  simp only [get?, put, if_neg outside, List.lookup_cons_self]

/-- The way to a place does not go through it, so what is put there is no obstacle. -/
theorem follow_put {names : List String} {start : List String} (free : t.get? place ≠ some .directory)
    (leads : t.follow start names = .ok place) : (t.put place entry).follow start names = .ok place := by
  induction names generalizing start with
  | nil => exact leads
  | cons name rest ih =>
    unfold follow at leads ⊢
    split at leads
    · cases leads
    · cases leads
    · next here =>
      have passed : start ≠ place := by
        rintro rfl
        exact free here
      rw [get?_put_of_ne passed, here]
      simp only
      by_cases stays : name = "" ∨ name = "."
      · rw [if_pos stays] at leads ⊢
        exact ih leads
      rw [if_neg stays] at leads ⊢
      by_cases up : name = ".."
      · rw [if_pos up] at leads ⊢
        exact ih leads
      rw [if_neg up] at leads ⊢
      split at leads
      · next named =>
        rw [if_pos named]
        exact ih leads
      · cases leads

theorem locate_put {path : String} (free : t.get? place ≠ some .directory) (leads : t.locate path = .ok place) :
    (t.put place entry).locate path = .ok place := by
  unfold locate at leads ⊢
  split at leads
  · cases leads
  · next nonempty =>
    rw [if_neg nonempty]
    split at leads
    · next asked =>
      rw [if_pos asked]
      exact follow_put free leads
    · cases leads

theorem read_of_write {path : String} {bytes : ByteArray} {written : FileTree}
    (writes : t.write path bytes = (.ok (), written)) : written.read path = .ok bytes := by
  unfold write at writes
  split at writes
  · cases writes
  · next t' _ =>
    split at writes
    · cases writes
    · next place leads =>
      split at writes
      · cases writes
      · next free =>
        cases writes
        have there : t'.get? place ≠ some .directory := fun directory => free directory
        simp only [read, locate_put there leads, bind, Except.bind, get?_put_self there]
        rfl

theorem access_lawful : access.Lawful where
  read_keeps _ _ := rfl
  read_written _ _ _ _ writes := read_of_write writes

end FileTree

end GraphGrammar
