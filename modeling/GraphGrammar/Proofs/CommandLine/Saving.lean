import GraphGrammar.CommandLine.Run
import GraphGrammar.Proofs.Settings.Store

/-!
Runs that save their settings. Where the file of the settings contains no document of settings such a run fails, and
changes nothing. Otherwise all that it does to the files is to write a text in which the given values have taken the
place of the stored ones. From then on the given values need not be given any more, and if they are given again
nothing is different.
-/

namespace GraphGrammar

def Takes {α : Type} (given : Option α) (stored value : α) : Prop :=
  given = some value ∨ given = none ∧ value = stored

theorem takes_iff {α : Type} {given : Option α} {stored value : α} :
    Takes given stored value ↔ value = given.getD stored := by
  cases given with
  | none => simp [Takes]
  | some a => simp [Takes, eq_comm]

namespace RunSettings

/-- The settings are the stored ones with every given value on top. -/
structure Overridden (stored : RunSettings) (given : Overrides) (s : RunSettings) : Prop where
  seed : Takes (given.seed.map some) stored.seed s.seed
  maxSteps : Takes given.maxSteps stored.maxSteps s.maxSteps
  maxDepth : Takes given.maxDepth stored.maxDepth s.maxDepth
  style : Takes given.style stored.style s.style
  format : Takes given.format stored.format s.format

theorem overridden_iff {stored s : RunSettings} {given : Overrides} :
    stored.Overridden given s ↔ s = stored.override given := by
  have seeds : (given.seed.map some).getD stored.seed = given.seed.or stored.seed := by
    cases given.seed <;> rfl
  constructor
  · rintro ⟨seed, maxSteps, maxDepth, style, format⟩
    rw [takes_iff] at seed maxSteps maxDepth style format
    calc
      s = ⟨s.seed, s.maxSteps, s.maxDepth, s.style, s.format⟩ := rfl
      _ = stored.override given := by rw [seed, maxSteps, maxDepth, style, format, seeds, override]
  · rintro rfl
    exact ⟨takes_iff.mpr seeds.symm, takes_iff.mpr rfl, takes_iff.mpr rfl, takes_iff.mpr rfl, takes_iff.mpr rfl⟩

theorem override_override (s : RunSettings) (given : Overrides) :
    (s.override given).override given = s.override given := by
  have twice {α : Type} (value : Option α) (stored : α) : value.getD (value.getD stored) = value.getD stored := by
    cases value <;> rfl
  have seed : given.seed.or (given.seed.or s.seed) = given.seed.or s.seed := by
    rw [← Option.or_assoc, Option.or_self]
  simp only [override, twice, seed]

theorem override_none (s : RunSettings) : s.override {} = s := by
  simp [override]

end RunSettings

namespace CommandLine

variable {Files : Type} {access : FileAccess (StateM Files)} {files before : Files} {content : Option String}
  {userSettings : Option String} {source : SettingsSource} {a : Arguments}

theorem run_bind_ok {α β : Type} {x : ExceptT Failure (StateM Files) α}
    {f : α → ExceptT Failure (StateM Files) β} {value : α} {next : Files}
    (first : x.run.run files = (.ok value, next)) :
    (x >>= f).run.run files = (f value).run.run next := by
  rw [ExceptT.run_bind]
  exact run_bind_of first

theorem run_bind_error {α β : Type} {x : ExceptT Failure (StateM Files) α}
    {f : α → ExceptT Failure (StateM Files) β} {failure : Failure} {next : Files}
    (first : x.run.run files = (.error failure, next)) : (x >>= f).run.run files = (.error failure, next) := by
  rw [ExceptT.run_bind]
  exact run_bind_of first

theorem run_lift {α : Type} {x : StateM Files α} {value : α} {next : Files} (first : x.run files = (value, next)) :
    (liftM x : ExceptT Failure (StateM Files) α).run.run files = (.ok value, next) := by
  change (Except.ok <$> x).run files = _
  rw [StateT.run_map, first]
  rfl

theorem loadSettings_run (forUpdate : Bool) {result : Except StoreError RunSettings}
    (load : (if forUpdate then source.loadForUpdate access else source.load access).run files = (result, files)) :
    (loadSettings access (some source) forUpdate).run.run files =
      (result.mapError fun _ => .loadingSettings, files) := by
  refine (run_bind_ok (run_lift load)).trans ?_
  cases result <;> rfl

theorem saveSettings_run (s : RunSettings) (files : Files) : (saveSettings access (some source) s).run.run files =
    (((access.write source.path s.text.toUTF8).run files).1.mapError fun _ => .savingSettings,
      ((access.write source.path s.text.toUTF8).run files).2) := by
  refine (run_bind_ok (run_lift SettingsSource.save_run)).trans ?_
  cases ((access.write source.path s.text.toUTF8).run files).1 <;> rfl

section

variable {m : Type → Type} [Monad m] {access : FileAccess m} {clockSeed : UInt64}

def Arguments.outcome (access : FileAccess m) (userSettings : Option String) (clockSeed : UInt64) (a : Arguments) :
    m Outcome := do
  match ← (perform access userSettings clockSeed a).run with
  | .ok text => return .printed text
  | .error failure => return .failed failure

theorem execute_of_parse {arguments : List String} (parsed : Arguments.parse arguments = .ok a) :
    execute access userSettings clockSeed arguments = a.outcome access userSettings clockSeed := by
  simp only [execute, parsed]
  rfl

end

/-- The arguments ask for a run with values over the settings of a source, to save them or to grow a graph. -/
structure Arguments.Asks (a : Arguments) (userSettings : Option String) (source : SettingsSource) (given : Overrides)
    (saves : Bool) : Prop where
  located : (a.config.map SettingsSource.file).or (userSettings.map SettingsSource.user) = some source
  overrides : a.overrides = given
  saveConfig : a.saveConfig = saves

/-- How a run ends that writes the settings, and does nothing else to the files. -/
inductive Written (access : FileAccess (StateM Files)) (source : SettingsSource) (s : RunSettings) (before : Files) :
    Outcome × Files → Prop where
  | saved {after : Files} (writes : (access.write source.path s.text.toUTF8).run before = (.ok (), after))
    (contains : access.Contains source.path after (some s.text)) : Written access source s before (.printed "", after)
  | failed {e : FileError} {after : Files}
    (fails : (access.write source.path s.text.toUTF8).run before = (.error e, after)) :
    Written access source s before (.failed .savingSettings, after)

/-- Runs that are to save the given values fail, and leave the files as they are. -/
def RefusesToSave (access : FileAccess (StateM Files)) (source : SettingsSource) (given : Overrides) (files : Files) :
    Prop :=
  ∀ (userSettings : Option String) (clockSeed : UInt64) (a : Arguments), a.Asks userSettings source given true →
    (a.outcome access userSettings clockSeed).run files = (.failed .loadingSettings, files)

/-- Runs that are to save the given values write these settings. -/
def Saves (access : FileAccess (StateM Files)) (source : SettingsSource) (given : Overrides) (s : RunSettings)
    (files : Files) : Prop :=
  ∀ (userSettings : Option String) (clockSeed : UInt64) (a : Arguments), a.Asks userSettings source given true →
    Written access source s files ((a.outcome access userSettings clockSeed).run files)

/-- Runs with the given values that save nothing grow a graph with these settings. -/
def GrowsWith (access : FileAccess (StateM Files)) (source : SettingsSource) (given : Overrides) (s : RunSettings)
    (files : Files) : Prop :=
  ∀ (userSettings : Option String) (clockSeed : UInt64) (a : Arguments), a.Asks userSettings source given false →
    (perform access userSettings clockSeed a).run.run files = (grow access s clockSeed a).run.run files

section

variable {clockSeed : UInt64} {next : Files}

theorem outcome_run_ok {text : String}
    (performed : (perform access userSettings clockSeed a).run.run files = (.ok text, next)) :
    (a.outcome access userSettings clockSeed).run files = (.printed text, next) :=
  run_bind_of performed

theorem outcome_run_error {failure : Failure}
    (performed : (perform access userSettings clockSeed a).run.run files = (.error failure, next)) :
    (a.outcome access userSettings clockSeed).run files = (.failed failure, next) :=
  run_bind_of performed

end

variable {s : RunSettings} (given : Overrides)

theorem growsWith (load : (source.load access).run files = (.ok s, files)) :
    GrowsWith access source given (s.override given) files := by
  intro userSettings clockSeed a asks
  have loaded := loadSettings_run false load
  unfold perform
  rw [asks.located, asks.saveConfig, asks.overrides]
  exact run_bind_ok loaded

section

variable (lawful : access.Lawful)

include lawful

theorem loadSettings_run_of_content (contains : access.Contains source.path before content) :
    (loadSettings access (some source) true).run.run before =
      ((RunSettings.ofContent content).mapError fun _ => .loadingSettings, before) :=
  loadSettings_run true (SettingsSource.loadForUpdate_run lawful contains)

theorem refusesToSave (contains : access.Contains source.path before content)
    (refused : ∀ stored : RunSettings, ¬stored.StoredAs content) : RefusesToSave access source given before := by
  intro userSettings clockSeed a asks
  have loaded := loadSettings_run_of_content lawful contains
  cases found : RunSettings.ofContent content with
  | ok stored => exact absurd (RunSettings.ofContent_eq_ok_iff.mp found) (refused stored)
  | error e =>
    rw [found] at loaded
    refine outcome_run_error ?_
    unfold perform
    rw [asks.located, asks.saveConfig]
    exact run_bind_error loaded

theorem saves (contains : access.Contains source.path before content) {stored : RunSettings}
    (found : stored.StoredAs content) : Saves access source given (stored.override given) before := by
  intro userSettings clockSeed a asks
  have loaded := loadSettings_run_of_content lawful contains
  rw [RunSettings.ofContent_eq_ok_iff.mpr found] at loaded
  have performed : (perform access userSettings clockSeed a).run.run before =
      (saveSettings access (some source) (stored.override given) >>= fun _ => pure "").run.run before := by
    unfold perform
    rw [asks.located, asks.saveConfig, asks.overrides]
    exact run_bind_ok loaded
  have saved : (saveSettings access (some source) (stored.override given)).run.run before = _ :=
    saveSettings_run (stored.override given) before
  cases writes : (access.write source.path (stored.override given).text.toUTF8).run before with
  | mk result after =>
    rw [writes] at saved
    cases result with
    | ok =>
      rw [outcome_run_ok (performed.trans (run_bind_ok saved))]
      exact .saved writes (lawful.read_written _ _ _ _ writes)
    | error e =>
      rw [outcome_run_error (performed.trans (run_bind_error saved))]
      exact .failed writes

/-- Saving is safe and has its effect. Where no settings are stored, runs that are to save some fail and change no
file. Otherwise they write the stored settings with every given value on top, and do nothing else. From a file with the
text that they write, just these settings are loaded, the same values are saved with the same text, and graphs are
grown with these settings, whether the values are given again or not, as they would have been grown before with the
values. -/
theorem saving_is_safe_and_effective (contains : access.Contains source.path before content) :
    (∀ stored : RunSettings, ¬stored.StoredAs content) ∧ RefusesToSave access source given before ∨
    ∃ stored s : RunSettings, stored.StoredAs content ∧ stored.Overridden given s ∧
      Saves access source given s before ∧
      ((∃ loaded, (source.load access).run before = (.ok loaded, before)) →
        GrowsWith access source given s before) ∧
      ∀ later, access.Contains source.path later (some s.text) →
        s.StoredAs (some s.text) ∧ (source.load access).run later = (.ok s, later) ∧
        Saves access source given s later ∧
        GrowsWith access source {} s later ∧ GrowsWith access source given s later := by
  by_cases stores : ∃ stored : RunSettings, stored.StoredAs content
  · obtain ⟨stored, found⟩ := stores
    refine .inr ⟨stored, stored.override given, found, RunSettings.overridden_iff.mpr rfl,
      saves given lawful contains found, ?before, ?later⟩
    case before =>
      rintro ⟨loaded, load⟩
      have result := congrArg Prod.fst ((SettingsSource.load_run lawful contains).symm.trans load)
      rw [found.unique (SettingsSource.storedAs_of_loaded result)]
      exact growsWith given load
    case later =>
      intro later contains
      have back := (SettingsSource.load_run lawful contains).trans (by rw [SettingsSource.loaded_text])
      have again := saves given lawful contains (stored.override given).storedAs_text
      have bare := growsWith {} back
      have repeated := growsWith given back
      rw [RunSettings.override_override] at again repeated
      rw [RunSettings.override_none] at bare
      exact ⟨RunSettings.storedAs_text _, back, again, bare, repeated⟩
  · have refused : ∀ stored : RunSettings, ¬stored.StoredAs content := not_exists.mp stores
    exact .inl ⟨refused, refusesToSave given lawful contains refused⟩

end

theorem names_single : FileTree.names "w" = ["w"] := by
  rw [FileTree.names, String.splitOn, if_neg (by decide)]
  -- The first step passes the only character, and the second one is past the end.
  rw [String.splitOnAux, if_neg (by decide +kernel), if_neg (by decide +kernel)]
  rw [String.splitOnAux, if_pos (by decide +kernel)]
  decide +kernel

/-- A style that is saved over another one, in a file that gives a number of steps as well. -/
theorem saving_is_safe_and_effective_for_style :
    let before : FileTree := ⟨[(["w"], .file "\x7b \"max_steps\": 12, \"style\": \"crypt\" \x7d".toUTF8)], []⟩
    let s : RunSettings := { maxSteps := 12, style := "sewer" }
    ∃ after, FileTree.access.Contains "w" after (some s.text) ∧
      (execute FileTree.access none 0 ["--config", "w", "--style", "sewer", "--save-config"]).run before =
        (.printed "", after) ∧
      GrowsWith FileTree.access (.file "w") {} s after := by
  intro before s
  have start : before.start "w" = [] := if_neg (by simp)
  have located : before.locate "w" = .ok ["w"] := by
    have path : FileTree.isPath "w" = true := by decide +kernel
    rw [FileTree.locate, if_neg (by decide +kernel), if_pos path, start, names_single]
    rfl
  have created : before.createParents "w" = (.ok (), before) := by
    have parents : FileTree.parentNames "w" = [] := by
      rw [FileTree.parentNames, names_single]
      rfl
    have path : FileTree.isPath (FileTree.parentPath "w") = true := by
      rw [FileTree.parentPath, parents, if_neg (by simp)]
      decide +kernel
    rw [FileTree.createParents, if_pos path, parents]
    rfl
  have contains : FileTree.access.Contains (SettingsSource.file "w").path before
      (some "\x7b \"max_steps\": 12, \"style\": \"crypt\" \x7d") := by
    change before.read "w" = _
    rw [FileTree.read, located]
    rfl
  have stored : RunSettings.StoredAs (some "\x7b \"max_steps\": 12, \"style\": \"crypt\" \x7d")
      { maxSteps := 12, style := "crypt" } := RunSettings.ofContent_eq_ok_iff.mp rfl
  have writes (bytes : ByteArray) : before.write "w" bytes = (.ok (), ⟨[(["w"], .file bytes)], []⟩) := by
    rw [FileTree.write, created]
    dsimp only
    rw [located]
    rfl
  let a : Arguments := { config := some "w", overrides := { style := some "sewer" }, saveConfig := true }
  have parsed : Arguments.parse ["--config", "w", "--style", "sewer", "--save-config"] = .ok a := rfl
  clear_value before
  have all := saving_is_safe_and_effective a.overrides FileTree.access_lawful contains
  obtain ⟨refused, _⟩ | ⟨stored', s', found, overridden, saves, _, later⟩ := all
  · exact absurd stored (refused _)
  have same : s' = s := by
    rw [RunSettings.overridden_iff.mp overridden, found.unique stored]
    rfl
  subst same
  have written := saves none 0 a ⟨rfl, rfl, rfl⟩
  rw [execute_of_parse parsed]
  generalize (a.outcome FileTree.access none 0).run before = ended at written
  cases written with
  | saved _ contains => exact ⟨_, contains, rfl, (later _ contains).2.2.2.1⟩
  | failed fails => cases (writes _).symm.trans fails

end CommandLine

end GraphGrammar
