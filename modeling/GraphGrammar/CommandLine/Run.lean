import GraphGrammar.CommandLine.Arguments
import GraphGrammar.Dot
import GraphGrammar.Dungeon.Grammar
import GraphGrammar.Engine
import GraphGrammar.Grammar.Document
import GraphGrammar.Graph.Digest
import GraphGrammar.Settings.Store

/-!
The program. It loads the settings, puts the arguments over them, and either saves them or grows a graph
and prints it. Without documents of their own it grows a dungeon. The first thing that fails ends it.
-/

namespace GraphGrammar.CommandLine

inductive InputKind where
  | graph
  | grammar
deriving DecidableEq

def InputKind.name : InputKind → String
  | graph => "graph"
  | grammar => "grammar"

inductive Failure where
  | loadingSettings
  | locatingSettings
  | savingSettings
  | reading (kind : InputKind) (path : String)
  | parsing (kind : InputKind) (path : String)
deriving DecidableEq

def Failure.message : Failure → String
  | loadingSettings => "loading config"
  | locatingSettings => "resolving config location"
  | savingSettings => "saving config"
  | reading kind path => "reading " ++ kind.name ++ " " ++ path
  | parsing kind path => "parsing " ++ kind.name ++ " " ++ path

/-- How the program ends: with what it prints, or not as a run, or with a failure. -/
inductive Outcome where
  | printed (text : String)
  | misuse
  | failed (failure : Failure)
deriving DecidableEq

def Outcome.exitCode : Outcome → UInt32
  | printed _ => 0
  | misuse => 2
  | failed _ => 1

def Outcome.output : Outcome → String
  | printed text => text
  | misuse | failed _ => ""

def versionText : String := "warren 0.1.0\n"

def helpText : String :=
  "Usage: warren [OPTIONS]\n\nOptions:\n" ++
  "      --seed <SEED>            Seed of the random choices\n" ++
  "      --steps <STEPS>          Greatest number of rule applications\n" ++
  "      --max-depth <MAX_DEPTH>  Depth at which dungeon paths are no longer split\n" ++
  "      --style <STYLE>          Style of descriptions\n" ++
  "      --grammar <FILE>         Grammar document in the place of the dungeon\n" ++
  "      --graph <FILE>           Graph document to grow\n" ++
  "      --format <FORMAT>        json, dot or summary\n" ++
  "      --config <FILE>          Settings file\n" ++
  "      --save-config            Save the settings and exit\n" ++
  "  -v, --verbose                Say more\n" ++
  "  -h, --help                   Print help\n" ++
  "  -V, --version                Print version\n"

def haltName : Halt → String
  | .exhausted => "exhausted"
  | .budget => "budget"

def summaryLine (seed : UInt64) (summary : RunSummary) (g : Graph) : String :=
  let number (n : Nat) := String.ofList (Nat.toDigits 10 n)
  "seed=" ++ number seed.toNat ++ " steps=" ++ number summary.steps ++
    " halt=" ++ haltName summary.halt ++ " nodes=" ++ number g.nodeCount ++
    " edges=" ++ number g.edgeCount ++ " digest=" ++ g.digest ++ "\n"

def present (format : OutputFormat) (seed : UInt64) (summary : RunSummary) (g : Graph) : String :=
  match format with
  | .json => g.toTree.pretty ++ "\n"
  | .dot => Dot.render g
  | .summary => summaryLine seed summary g

variable {m : Type → Type} [Monad m]

def readInput (files : FileAccess m) (kind : InputKind)
    (ofText : String → Except DocumentError α) (path : String) : ExceptT Failure m α := do
  match ← files.read path with
  | .error _ => throw (.reading kind path)
  | .ok bytes =>
    match String.fromUTF8? bytes with
    | none => throw (.reading kind path)
    | some text =>
      match ofText text with
      | .error _ => throw (.parsing kind path)
      | .ok document => return document

def loadGraph (files : FileAccess m) : Option String → ExceptT Failure m Graph
  | none => return Dungeon.seedGraph
  | some path => readInput files .graph Graph.ofText path

def loadGrammar (files : FileAccess m) (settings : RunSettings) :
    Option String → ExceptT Failure m Grammar
  | none => return Dungeon.grammar ⟨settings.maxDepth, settings.style⟩ .tagged
  | some path => return (← readInput files .grammar GrammarDocument.ofText path).grammar

def loadSettings (files : FileAccess m) (source : Option SettingsSource) (forUpdate : Bool) :
    ExceptT Failure m RunSettings := do
  match source with
  | none => return {}
  | some source =>
    let load : m (Except StoreError RunSettings) :=
      if forUpdate then source.loadForUpdate files else source.load files
    match ← load with
    | .ok settings => return settings
    | .error _ => throw .loadingSettings

def saveSettings (files : FileAccess m) (source : Option SettingsSource) (settings : RunSettings) :
    ExceptT Failure m Unit := do
  match source with
  | none => throw .locatingSettings
  | some source =>
    let save : m (Except StoreError Unit) := source.save files settings
    match ← save with
    | .ok () => return
    | .error _ => throw .savingSettings

def grow (files : FileAccess m) (settings : RunSettings) (clockSeed : UInt64) (a : Arguments) :
    ExceptT Failure m String := do
  let seed := settings.seed.getD clockSeed
  let graph ← loadGraph files a.graph
  let grammar ← loadGrammar files settings a.grammar
  let engine : Engine := { grammar, state := ⟨graph, .ofSeed seed⟩ }
  let (summary, engine) := engine.run settings.maxSteps.toNat
  return present settings.format seed summary engine.state.graph

def perform (files : FileAccess m) (userSettings : Option String) (clockSeed : UInt64)
    (a : Arguments) : ExceptT Failure m String := do
  let source := (a.config.map SettingsSource.file).or (userSettings.map SettingsSource.user)
  let settings := (← loadSettings files source a.saveConfig).override a.overrides
  if a.saveConfig then
    saveSettings files source settings
    return ""
  else
    grow files settings clockSeed a

/-- The program. It is given a way to files, the user's directory for settings if there is one, and a
seed for runs that name none. -/
def execute (files : FileAccess m) (userSettings : Option String) (clockSeed : UInt64)
    (arguments : List String) : m Outcome := do
  match Arguments.parse arguments with
  | .error .version => return .printed versionText
  | .error .help => return .printed helpText
  | .error .misuse => return .misuse
  | .ok a =>
    match ← (perform files userSettings clockSeed a).run with
    | .ok text => return .printed text
    | .error failure => return .failed failure

end GraphGrammar.CommandLine
