import GraphGrammar.Json.Record
import GraphGrammar.Json.Writer

/-!
What a dungeon is grown with: how deep its paths are split, and the generator of its descriptions with
the style that it is told. A generator that fails leaves the description out.
-/

namespace GraphGrammar

inductive TextError where
  | unavailable
  | backend (reason : String)
deriving DecidableEq

def TextError.message : TextError → String
  | unavailable => "text generation unavailable"
  | backend reason => "text generation failed: " ++ reason

structure TextGenerator where
  /-- Puts a template into other words. The arguments are the style and the template. -/
  rephrase : (style template : String) → Except TextError String
  /-- Goes on from what was said before. -/
  resume : (style before template : String) → Except TextError String

namespace TextGenerator

def failing (e : TextError) : TextGenerator := ⟨fun _ _ => .error e, fun _ _ _ => .error e⟩

def silent : TextGenerator := failing .unavailable

/-- The generator that repeats the template behind the name of the style. -/
def tagged : TextGenerator where
  rephrase style template := .ok ("[" ++ style ++ "] " ++ template)
  resume style before template := .ok (before ++ " [" ++ style ++ "] " ++ template)

end TextGenerator

open Json (Tree Reads)

structure DungeonSettings where
  /-- Paths of this depth are not split. -/
  maxDepth : UInt32 := 3
  /-- What the text generator is told. -/
  style : String := "dungeon"
deriving DecidableEq, Inhabited

def readDungeonSettings : Reads DungeonSettings :=
  let default : DungeonSettings := {}
  Json.readRecord (DungeonSettings.mk
    <$> .withDefault "max_depth" default.maxDepth Json.readWord32
    <*> .withDefault "style" default.style Json.readString)

namespace DungeonSettings

def toTree (s : DungeonSettings) : Tree :=
  .object [("max_depth", .number (.natural s.maxDepth.toUInt64)), ("style", .string s.style)]

def ofText (text : String) : Except DocumentError DungeonSettings :=
  Json.readText readDungeonSettings text

def text (s : DungeonSettings) : String := s.toTree.render

end DungeonSettings

end GraphGrammar
