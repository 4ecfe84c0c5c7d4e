import GraphGrammar.Proofs.Files
import GraphGrammar.Proofs.Settings.Document
import GraphGrammar.Settings.Store

/-!
Settings in a file that is missing or contains a text. Where nothing is stored, the settings to start from are the
default ones, and otherwise they are those of the document in the file. To load them leaves the files as they are, and
to save them is to write their text to the file.
-/

namespace GraphGrammar

open Json (Tree)

variable {Files : Type} {access : FileAccess (StateM Files)} {files : Files} {content : Option String}

theorem run_bind_of {α β : Type} {x : StateM Files α} {f : α → StateM Files β} {value : α} {next : Files}
    (first : x.run files = (value, next)) : (x >>= f).run files = (f value).run next := by
  rw [StateT.run_bind, first]
  rfl

/-- What stands at a path: no file, or one that contains a text. -/
def FileAccess.Contains (access : FileAccess (StateM Files)) (path : String) (files : Files) : Option String → Prop
  | none => ((access.read path).run files).1 = .error .notFound
  | some text => ((access.read path).run files).1 = .ok text.toUTF8

theorem isEmpty_toUTF8_iff {text : String} : text.toUTF8.isEmpty = true ↔ text = "" := by
  rw [← String.utf8ByteSize_eq_zero_iff]
  exact beq_iff_eq

namespace RunSettings

/-- The settings of a file that is missing, is empty, or contains a document. -/
inductive StoredAs : Option String → RunSettings → Prop where
  | missing {s : RunSettings} (defaults : s.StoredIn []) : StoredAs none s
  | empty {s : RunSettings} (defaults : s.StoredIn []) : StoredAs (some "") s
  | document {text : String} {t : Tree} {r : Json.Record} {s : RunSettings} (parses : Tree.ofText? text = some t)
    (record : t.record? fieldNames = some r) (stored : s.StoredIn r.members) : StoredAs (some text) s

def inContent : Option String → Except StoreError (Option RunSettings)
  | none => .ok none
  | some text => if text = "" then .ok none else (some <$> ofText text).mapError .refused

/-- The settings that are overridden and saved again. -/
def ofContent (content : Option String) : Except StoreError RunSettings := (·.getD {}) <$> inContent content

theorem inContent_of_text {text : String} (nonempty : text ≠ "") :
    inContent (some text) = (some <$> ofText text).mapError .refused := if_neg nonempty

theorem ofContent_of_text {text : String} (nonempty : text ≠ "") :
    ofContent (some text) = (ofText text).mapError .refused := by
  rw [ofContent, inContent_of_text nonempty]
  cases ofText text <;> rfl

theorem ofContent_eq_ok_iff {s : RunSettings} : ofContent content = .ok s ↔ s.StoredAs content := by
  cases content with
  | none =>
    constructor
    · rintro ⟨⟩
      exact .missing (storedIn_nil_iff.mpr rfl)
    · rintro (defaults | _ | _)
      rw [storedIn_nil_iff.mp defaults]
      rfl
  | some text =>
    by_cases empty : text = ""
    · subst empty
      constructor
      · rintro ⟨⟩
        exact .empty (storedIn_nil_iff.mpr rfl)
      · rintro (_ | defaults | ⟨parses, _, _⟩)
        · rw [storedIn_nil_iff.mp defaults]
          rfl
        · cases parses
    · rw [ofContent_of_text empty]
      constructor
      · intro result
        obtain ⟨t, r, parses, record, stored⟩ := ofText_eq_ok_iff.mp (ok_of_mapError result)
        exact .document parses record stored
      · rintro (_ | _ | ⟨parses, record, stored⟩)
        · exact absurd rfl empty
        · rw [ofText_eq_ok_iff.mpr ⟨_, _, parses, record, stored⟩]
          rfl

theorem StoredAs.unique {s s' : RunSettings} (stored : s.StoredAs content) (stored' : s'.StoredAs content) : s = s' :=
  Except.ok.inj ((ofContent_eq_ok_iff.mpr stored).symm.trans (ofContent_eq_ok_iff.mpr stored'))

theorem storedAs_text (s : RunSettings) : s.StoredAs (some s.text) := by
  rw [← ofContent_eq_ok_iff, ofContent_of_text s.text_ne_empty, s.ofText_text]
  rfl

theorem ofBytes_toUTF8 (text : String) : ofBytes text.toUTF8 = ofText text := by
  unfold ofBytes
  rw [show String.fromUTF8? text.toUTF8 = some text from fromUTF8?_toByteArray text]

end RunSettings

namespace SettingsSource

variable {source : SettingsSource}

def path : SettingsSource → String
  | file path => path
  | user directory => BlobStore.pathOf directory settingsKey

theorem save_run {s : RunSettings} : (source.save access s).run files =
    (((access.write source.path s.text.toUTF8).run files).1.mapError .ofFileError,
      ((access.write source.path s.text.toUTF8).run files).2) := by
  cases source <;> rfl

def loaded (source : SettingsSource) (content : Option String) : Except StoreError RunSettings :=
  match source, RunSettings.inContent content with
  | _, .ok (some settings) => .ok settings
  | file _, .ok none => .error .notFound
  | user _, .ok none => .ok {}
  | _, .error e => .error e

theorem storedAs_of_loaded {s : RunSettings} (loads : source.loaded content = .ok s) : s.StoredAs content := by
  unfold loaded at loads
  rw [← RunSettings.ofContent_eq_ok_iff, RunSettings.ofContent]
  split at loads
  · next found =>
    rw [found]
    exact loads
  · cases loads
  · next found =>
    rw [found]
    exact loads
  · cases loads

theorem loaded_text (s : RunSettings) : source.loaded (some s.text) = .ok s := by
  unfold loaded
  rw [RunSettings.inContent_of_text s.text_ne_empty, s.ofText_text]
  cases source <;> rfl

variable (lawful : access.Lawful)

include lawful

theorem load_store_run : ((source.store access).load settingsKey).run files =
    (((access.read source.path).run files).1.mapError .ofFileError, files) := by
  have keeps := lawful.read_keeps source.path files
  cases source <;> exact Prod.ext rfl keeps

theorem loadSettings_run (contains : access.Contains source.path files content) :
    ((source.store access).loadSettings settingsKey).run files = (RunSettings.inContent content, files) := by
  have load : ((source.store access).load settingsKey).run files = _ := load_store_run lawful
  cases content with
  | none =>
    rw [show ((access.read source.path).run files).1 = _ from contains] at load
    exact run_bind_of load
  | some text =>
    rw [show ((access.read source.path).run files).1 = _ from contains] at load
    refine (run_bind_of load).trans ?_
    by_cases empty : text = ""
    · subst empty
      rfl
    · have nonempty : ¬text.toUTF8.isEmpty = true := fun is => empty (isEmpty_toUTF8_iff.mp is)
      rw [RunSettings.inContent_of_text empty, ← RunSettings.ofBytes_toUTF8]
      simp only [Except.mapError, if_neg nonempty]
      rfl

theorem load_run (contains : access.Contains source.path files content) :
    (source.load access).run files = (source.loaded content, files) := by
  refine (run_bind_of (loadSettings_run lawful contains)).trans ?_
  unfold loaded
  rcases RunSettings.inContent content with e | _ | s <;> cases source <;> rfl

theorem loadForUpdate_run (contains : access.Contains source.path files content) :
    (source.loadForUpdate access).run files = (RunSettings.ofContent content, files) := by
  refine (run_bind_of (load_run lawful contains)).trans ?_
  unfold loaded RunSettings.ofContent
  cases content with
  | none => cases source <;> rfl
  | some text =>
    by_cases empty : text = ""
    · subst empty
      cases source <;> rfl
    · rw [RunSettings.inContent_of_text empty]
      cases RunSettings.ofText text <;> cases source <;> rfl

end SettingsSource

end GraphGrammar
