import GraphGrammar.Json.Record
import GraphGrammar.Json.Writer

/-!
The settings of a run. They come from a document, in which every field may be absent, and values given
for a single run go over them.
-/

namespace GraphGrammar

open Json (Tree Reads)

inductive OutputFormat where
  | json
  | dot
  | summary
deriving DecidableEq, Inhabited

namespace OutputFormat

def name : OutputFormat → String
  | json => "json"
  | dot => "dot"
  | summary => "summary"

def ofName? (s : String) : Option OutputFormat :=
  [json, dot, summary].find? fun f => f.name == s

def ofName (s : String) : Except DocumentError OutputFormat :=
  match ofName? s with
  | some f => .ok f
  | none => .error (.invalid .mismatch)

def read : Reads OutputFormat
  | .string s => ofName s
  | .object [(name, .null)] => ofName name
  | .object ((name, content) :: _) | .damaged ((name, content) :: _) _ => do
    let _ ← ofName name
    match content with
    | .null => throw .malformed
    | content => Json.unexpected content
  | .damaged [] next => Json.unexpected next
  | _ => .error .malformed

end OutputFormat

structure RunSettings where
  seed : Option UInt64 := none
  maxSteps : UInt64 := 10000
  maxDepth : UInt32 := 3
  style : String := "dungeon"
  format : OutputFormat := .summary
deriving DecidableEq, Inhabited

/-- Values that go over stored settings. -/
structure Overrides where
  seed : Option UInt64 := none
  maxSteps : Option UInt64 := none
  maxDepth : Option UInt32 := none
  style : Option String := none
  format : Option OutputFormat := none
deriving DecidableEq, Inhabited

namespace RunSettings

def override (s : RunSettings) (o : Overrides) : RunSettings where
  seed := o.seed.or s.seed
  maxSteps := o.maxSteps.getD s.maxSteps
  maxDepth := o.maxDepth.getD s.maxDepth
  style := o.style.getD s.style
  format := o.format.getD s.format

def read : Reads RunSettings :=
  let default : RunSettings := {}
  Json.readRecord (RunSettings.mk
    <$> .optional "seed" Json.readWord64
    <*> .withDefault "max_steps" default.maxSteps Json.readWord64
    <*> .withDefault "max_depth" default.maxDepth Json.readWord32
    <*> .withDefault "style" default.style Json.readString
    <*> .withDefault "format" default.format OutputFormat.read)

def toTree (s : RunSettings) : Tree :=
  .object (Json.optionalMember "seed" (fun seed => .number (.natural seed)) s.seed ++ [
    ("max_steps", .number (.natural s.maxSteps)),
    ("max_depth", .number (.natural s.maxDepth.toUInt64)),
    ("style", .string s.style),
    ("format", .string s.format.name)])

def ofText (text : String) : Except DocumentError RunSettings := Json.readText read text

def text (s : RunSettings) : String := s.toTree.pretty

end RunSettings

end GraphGrammar
