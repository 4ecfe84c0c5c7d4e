import GraphGrammar.CommandLine.Run
import GraphGrammar.Proofs.Dungeon.Rules
import GraphGrammar.Proofs.Engine.Follow
import GraphGrammar.Proofs.Files
import GraphGrammar.Proofs.Grammar.Document
import GraphGrammar.Proofs.Graph.RoundTrip

/-!
Runs that are stored and taken up again. Whatever a run may start from and whatever grammar it may
follow, its graph is read back from the text that the program prints, and nothing tells the run on the
graph that was read from the run on the graph that was stored.
-/

namespace GraphGrammar

open GraphGrammar.Graph (SparesLast)

/-- What a run may start from: the first graph of a dungeon, or the graph of any document text. -/
inductive Graph.Begun : Graph → Prop where
  | dungeon : Begun Dungeon.seedGraph
  | loaded {text : String} {g : Graph} (read : Graph.ofText text = .ok g) : Begun g

/-- What a run may follow: the grammar of a dungeon, or the grammar of any document text. -/
inductive Grammar.Given : Grammar → Prop where
  | dungeon (settings : DungeonSettings) (text : TextGenerator) : Given (Dungeon.grammar settings text)
  | loaded {text : String} {d : GrammarDocument} (read : GrammarDocument.ofText text = .ok d) :
    Given d.grammar

theorem Graph.Begun.sound {g : Graph} (begun : g.Begun) : g.Sound := by
  cases begun with
  | dungeon =>
    have development : Graph.Development (fun _ => True) ∅ [⟨0⟩, ⟨1⟩] [⟨0⟩] Dungeon.seedGraph :=
      Dungeon.seedGraph_development trivial trivial trivial
    exact development.sound (by decide) Graph.sound_empty
  | loaded read => exact (Graph.sound_of_ofText read).1

theorem Graph.Begun.fits {g : Graph} (begun : g.Begun) : g.Allowed Label.FitsGraph := by
  cases begun with
  | dungeon => exact (Dungeon.admits_storable 122).seedGraph
  | loaded read => exact (Graph.sound_of_ofText read).2

theorem Grammar.Given.keeps {grammar : Grammar} (given : grammar.Given) :
    grammar.Keeps Label.FitsGraph := by
  cases given with
  | dungeon => exact (Dungeon.admits_storable 122).keeps
  | loaded read => exact GrammarDocument.grammar_keeps read

theorem RunState.run_fits {start : Graph} (begun : start.Begun) {grammar : Grammar}
    (given : grammar.Given) (generator : Generator) (budget : Nat)
    (spared : SparesLast (Applied.nodes (changes grammar budget ⟨start, generator⟩))
      (Applied.edges (changes grammar budget ⟨start, generator⟩))) :
    (run grammar budget ⟨start, generator⟩).2.graph.Sound ∧
      (run grammar budget ⟨start, generator⟩).2.graph.Allowed Label.FitsGraph := by
  have texts : IgnoresTexts Label.FitsGraph := fun f _ => Label.within_mapStrings f
  have development := run_development (s := ⟨start, generator⟩) texts given.keeps budget begun.fits
  exact ⟨development.sound spared begun.sound, development.allowed begun.fits⟩

structure Graph.Reloads (g : Graph) : Prop where
  finite : ∀ x ∈ g.numbers, x.isFinite = true
  readable : g.toTree.isReadable = true
  within : g.toTree.Within Json.Numeral.IsFinite Json.greatestDepth
  inline : Graph.ofText g.text = .ok g
  lines : Graph.ofText (g.toTree.pretty ++ "\n") = .ok g

namespace CommandLine

/-- A run of the program that takes no steps, reads the text as its graph, and prints a document, prints
this text. The settings and the grammar may be any that can be loaded. -/
def PrintsAgain (text : String) : Prop :=
  ∀ (m : Type → Type) [Monad m] [LawfulMonad m] (files : FileAccess m) (userSettings : Option String)
    (clockSeed : UInt64) (arguments : List String) (a : Arguments) (path : String)
    (settings : RunSettings) (grammar : Grammar),
    Arguments.parse arguments = .ok a → a.graph = some path → a.saveConfig = false →
    a.overrides.maxSteps = some 0 → a.overrides.format = some .json →
    files.read path = pure (.ok text.toUTF8) →
    loadSettings files ((a.config.map SettingsSource.file).or (userSettings.map SettingsSource.user))
      false = pure settings →
    loadGrammar files (settings.override a.overrides) a.grammar = pure grammar →
    execute files userSettings clockSeed arguments = pure (.printed text)

theorem printsAgain {g : Graph} {text : String} (read : Graph.ofText text = .ok g)
    (written : g.toTree.pretty ++ "\n" = text) : PrintsAgain text := by
  intro m _ _ files userSettings clockSeed arguments a path settings grammar parsed graph saves steps
    format file loaded given
  have start : loadGraph files a.graph = (pure g : ExceptT Failure m Graph) := by
    apply ExceptT.ext
    simp [graph, loadGraph, readInput, file, fromUTF8?_toByteArray, read]
  have grown : grow files (settings.override a.overrides) clockSeed a =
      (pure text : ExceptT Failure m String) := by
    have none : (settings.override a.overrides).maxSteps = 0 := by
      rw [RunSettings.override, steps]
      rfl
    have document : (settings.override a.overrides).format = .json := by
      rw [RunSettings.override, format]
      rfl
    unfold grow
    simp only [start, given, pure_bind, none, document]
    exact congrArg pure written
  have performed : perform files userSettings clockSeed a =
      (pure text : ExceptT Failure m String) := by
    unfold perform
    simp only [saves, loaded, pure_bind]
    exact grown
  unfold execute
  simp only [parsed, performed]
  simp

/-- The graph of a run is read back from what the program prints, where its finite numbers are read back
from their own texts. The program prints it once more without steps, and steps go on from it as they
would have gone on without the detour. -/
theorem run_reloads {start : Graph} (begun : start.Begun) {grammar : Grammar} (given : grammar.Given)
    (generator : Generator) (budget : Nat)
    (spared : SparesLast (Applied.nodes (RunState.changes grammar budget ⟨start, generator⟩))
      (Applied.edges (RunState.changes grammar budget ⟨start, generator⟩)))
    (numbers : ∀ x ∈ (RunState.run grammar budget ⟨start, generator⟩).2.graph.numbers,
      x.isFinite = true → (Json.Numeral.real x).ReadsBack) :
    let result := RunState.run grammar budget ⟨start, generator⟩
    let s := result.2
    s.graph.Reloads ∧
      (∀ seed, PrintsAgain (present .json seed result.1 s.graph)) ∧
      ∀ reloaded, Graph.ofText s.graph.text = .ok reloaded ∨
          Graph.ofText (s.graph.toTree.pretty ++ "\n") = .ok reloaded →
        (∀ grammars, RunState.follow grammars ⟨reloaded, s.generator⟩ = RunState.follow grammars s) ∧
        ∀ next more, RunState.run next more ⟨reloaded, s.generator⟩ = RunState.run next more s := by
  intro result s
  obtain ⟨sound, fits⟩ := RunState.run_fits begun given generator budget spared
  obtain ⟨inline, lines⟩ := sound.ofText_text fits numbers
  refine ⟨⟨Graph.isFinite_of_mem_numbers fits, s.graph.isReadable_toTree, Graph.fits_document fits, inline,
    lines⟩, fun _ => printsAgain lines rfl, fun reloaded read => ?_⟩
  have same : reloaded = s.graph := by
    rcases read with read | read
    · exact Except.ok.inj (read.symm.trans inline)
    · exact Except.ok.inj (read.symm.trans lines)
  rw [same]
  exact ⟨fun _ => rfl, fun _ _ => rfl⟩

/-- A dungeon that was begun, stored, and printed once more. -/
theorem run_reloads_in_new_dungeon :
    let grammar := Dungeon.grammar { maxDepth := 1, style := "cave" } .tagged
    let result := RunState.run grammar 4 ⟨Dungeon.seedGraph, .ofSeed 5⟩
    let text := present .json 5 result.1 result.2.graph
    let files : FileAccess Id := ⟨fun _ => .ok text.toUTF8, fun _ _ => .error .failed⟩
    result.1 = ⟨4, .budget⟩ ∧ result.2.graph.numbers.length = 2 ∧ result.2.graph.Reloads ∧
      execute files none 0 ["--graph", "cave.json", "--steps=0", "--format", "json"] =
        pure (.printed text) := by
  intro grammar result text files
  have spared : SparesLast (Applied.nodes (RunState.changes grammar 4 ⟨Dungeon.seedGraph, .ofSeed 5⟩))
      (Applied.edges (RunState.changes grammar 4 ⟨Dungeon.seedGraph, .ofSeed 5⟩)) := by decide +kernel
  have numbers : ∀ x ∈ (RunState.run grammar 4 ⟨Dungeon.seedGraph, .ofSeed 5⟩).2.graph.numbers,
      x.isFinite = true → (Json.Numeral.real x).ReadsBack := by decide +kernel
  have given : grammar.Given := .dungeon { maxDepth := 1, style := "cave" } .tagged
  have ran : result.1 = ⟨4, .budget⟩ := by decide +kernel
  have listed : result.2.graph.numbers.length = 2 := by decide +kernel
  clear_value grammar
  have all := run_reloads .dungeon given (.ofSeed 5) 4 spared numbers
  exact ⟨ran, listed, all.1, all.2.1 5 Id files none 0 _ _ "cave.json" {} _ rfl rfl rfl rfl rfl rfl rfl rfl⟩

end CommandLine

end GraphGrammar
